import Emend.Proofs.Pipeline.Independence

/-! # Where a run was cut

A request to stop stays once it is made, and no file is visited after it. So the turns of a run, in the order of the
stages and of the files in each, are had up to the one that brought the request, and none is had behind it
(`cut_of_cancelled`).
-/

namespace Emend.Pipeline

/-- Visits one after the other, each of them once, and a failure ends nothing. Whoever answers that the run was
cancelled was asked to stop, and listeners do not take the request back. -/
structure Interruptible (p : Pipeline) : Prop where
  sequential : p.config.parallel = false
  tolerant : p.config.failFast = false
  once : p.config.checkIdempotence = false
  asked : ∀ stage ∈ p.stages, ∀ v ∈ stage.visitor, ∀ source s,
    ((v.visit source).run.run s).1 = .error (.error .cancelled) →
      ((v.visit source).run.run s).2.context.cancelled = true
  progress : ∀ info s, s.context.cancelled = true → ((p.progress info).run s).2.context.cancelled = true

/-- The session in which the file at `m` meets the stage, in a round that begins in `start`. -/
def Round.sessionAt (p : Pipeline) (index : Nat) (start : Session) (r : Round) (m : Nat) : Session :=
  ((meetEach p index r.stage r.files.length 0 (r.files.take m)).run start).2

/-- The session in which the file at `m` meets the stage at `j`. -/
def turnSession (p : Pipeline) (sources : List Source) (s : Session) (j m : Nat) : Session :=
  match (rounds p sources s)[j]? with
  | some r => r.sessionAt p j (sessionAfter p.config s ((rounds p sources s).take j)) m
  | none => sessionAfter p.config s (rounds p sources s)

/-- What the file at `m` is with the effects of the first stages, and nothing else: each met it in a session that was
not asked to stop, and came to an end with it. -/
inductive Effects (p : Pipeline) (sources : List Source) (s : Session) : Nat → Nat → FileResult → Prop where
  | given {m : Nat} {source : Source} (h : sources[m]? = some source) : Effects p sources s 0 m (.start source)
  | stage {j m : Nat} {f : FileResult} {stage : Stage} {o : Outcome} (before : Effects p sources s j m f)
      (hstage : p.stages[j]? = some stage) (going : (turnSession p sources s j m).context.cancelled = false)
      (met : ((visitFile p.config stage f.after).run (turnSession p sources s j m)).1 = o)
      (ended : o.isCancelled = false) : Effects p sources s (j + 1) m (f.amend stage.name o)

/-- The run was cut at the turn of the file at `i` in the stage at `k`. -/
structure Cut (p : Pipeline) (sources : List Source) (s : Session) (result : RecipeRun) (k i : Nat) : Prop where
  stage : p.stages ≠ [] → k < p.stages.length
  position : sources ≠ [] → i < sources.length
  inputs : result.results.map (·.before) = sources
  before : ∀ m f, m < i → result.results[m]? = some f → ∃ g, Effects p sources s (k + 1) m g ∧ f = conclude g
  behind : ∀ m f, i < m → result.results[m]? = some f → ∃ g, Effects p sources s k m g ∧ f = conclude g
  here : ∀ f, result.results[i]? = some f →
    ∃ g, (Effects p sources s k i g ∨ Effects p sources s (k + 1) i g) ∧ f = conclude g
  visits : ∀ j m r t, (rounds p sources s)[j]? = some r → r.turns[m]? = some t → t.encounter.isVisit = true →
    j < k ∨ j = k ∧ m ≤ i
  request : s.context.cancelled = false → (turnSession p sources s k i).context.cancelled = false ∧
    (turnSession p sources s k (i + 1)).context.cancelled = true

theorem stays_of_le {flag : Nat → Bool} (stays : ∀ m, flag m = true → flag (m + 1) = true) {m n : Nat} (h : m ≤ n)
    (hm : flag m = true) : flag n = true := by
  induction h with
  | refl => exact hm
  | step _ ih => exact stays _ ih

/-- A flag that is not taken back is raised at one point. -/
theorem exists_turning_point {flag : Nat → Bool} (stays : ∀ m, flag m = true → flag (m + 1) = true)
    (start : flag 0 = false) {n : Nat} (stop : flag n = true) : ∃ i < n, ∀ m, flag m = true ↔ i < m := by
  induction n with
  | zero =>
    rw [start] at stop
    cases stop
  | succ n ih =>
    cases h : flag n with
    | true =>
      obtain ⟨i, hi, turns⟩ := ih h
      exact ⟨i, Nat.lt_succ_of_lt hi, turns⟩
    | false =>
      refine ⟨n, Nat.lt_succ_self n, fun m => ⟨fun hm => ?_, fun hm => ?_⟩⟩
      · by_contra early
        rw [stays_of_le stays (Nat.not_lt.1 early) hm] at h
        cases h
      · exact stays_of_le stays hm stop

theorem FileResult.amend_of_cancelled (f : FileResult) (name : String) {o : Outcome} (h : o.isCancelled = true) :
    f.amend name o = f := by
  cases o with
  | cancelled => rfl
  | _ => cases h

section Turns

variable {p : Pipeline} (index : Nat) {stage : Stage} (files : Nat)

theorem encounter_meetEach (done : Nat) (rs : List FileResult) (s : Session) {m : Nat} {t : Turn}
    (ht : ((meetEach p index stage files done rs).run s).1[m]? = some t) :
    ((encounter p.config stage t.file.after).run ((meetEach p index stage files done (rs.take m)).run s).2).1 =
      t.encounter := by
  induction rs generalizing done s m with
  | nil => cases ht
  | cons r rs ih =>
    cases m with
    | zero =>
      obtain rfl := Option.some.inj ht
      rfl
    | succ m => exact ih (done + 1) _ ht

variable (h : Interruptible p)
include h

/-- A meeting that is cancelled leaves a session that was asked to stop. -/
theorem Interruptible.asked_encounter (hstage : stage ∈ p.stages) (source : Source) (s : Session)
    (hc : (((encounter p.config stage source).run s).1.outcome stage.name source).isCancelled = true) :
    ((encounter p.config stage source).run s).2.context.cancelled = true := by
  cases hs : s.context.cancelled with
  | true => rwa [run_encounter_late p.config stage source hs]
  | false =>
    by_cases refused : ∀ v ∈ stage.visitor, v.accepts source = false
    · rw [run_encounter_passed p.config stage hs refused] at hc
      cases hc
    · simp only [Classical.not_forall, Bool.not_eq_false] at refused
      obtain ⟨v, visitor, accepted⟩ := refused
      have answered := run_guarded stage.name source.path (v.visit source) s
      have once : toRevisit? p.config source (answer stage.name source.path ((v.visit source).run.run s).1) = none := by
        rw [Option.eq_none_iff_forall_ne_some]
        intro after twice
        have checks := (toRevisit?_eq_some twice).2.1
        rw [h.once] at checks
        cases checks
      rw [run_encounter_visited p.config stage hs visitor accepted answered once] at hc ⊢
      apply h.asked stage hstage v visitor source s
      by_contra other
      rw [Encounter.isCancelled_outcome_visited stage.name source (answer_ne_cancelled other)] at hc
      cases hc

/-- The request to stop stays from turn to turn. -/
theorem Interruptible.stays (done : Nat) (rs : List FileResult) (s : Session) (m : Nat)
    (hm : ((meetEach p index stage files done (rs.take m)).run s).2.context.cancelled = true) :
    ((meetEach p index stage files done (rs.take (m + 1))).run s).2.context.cancelled = true := by
  induction rs generalizing done s m with
  | nil => rwa [List.take_nil] at hm ⊢
  | cons r rs ih =>
    cases m with
    | zero =>
      have late : (encounter p.config stage r.after).run s = (.late, s) :=
        run_encounter_late p.config stage r.after hm
      refine h.progress _ ((encounter p.config stage r.after).run s).2 ?_
      rw [late]
      exact hm
    | succ m => exact ih (done + 1) _ m hm

theorem Interruptible.cancelled_turn (hstage : stage ∈ p.stages) (done : Nat) (rs : List FileResult) (s : Session)
    {m : Nat} {t : Turn} (ht : ((meetEach p index stage files done rs).run s).1[m]? = some t)
    (hc : (t.encounter.outcome stage.name t.file.after).isCancelled = true) :
    ((meetEach p index stage files done (rs.take (m + 1))).run s).2.context.cancelled = true := by
  induction rs generalizing done s m with
  | nil => cases ht
  | cons r rs ih =>
    cases m with
    | zero =>
      obtain rfl := Option.some.inj ht
      exact h.progress _ _ (h.asked_encounter hstage r.after s hc)
    | succ m => exact ih (done + 1) _ ht

end Turns

section Rounds

variable {p : Pipeline}

/-- A round begins in the session that those before it left, and only if that was not asked to stop. -/
theorem begin_historyFrom (index : Nat) (stages : List Stage) (files : List FileResult) (s : Session) {j : Nat}
    {r : Round} (hr : ((historyFrom p index stages files).run s).1[j]? = some r) :
    let start := sessionAfter p.config s (((historyFrom p index stages files).run s).1.take j)
    start.context.cancelled = false ∧
      (meetAll p (index + j) r.stage r.files).run start = (r.turns, r.session) := by
  induction stages generalizing index files s j with
  | nil => cases hr
  | cons stage stages ih =>
    cases hs : s.context.cancelled with
    | true =>
      rw [run_historyFrom_of_cancelled p index stage stages files hs] at hr
      cases hr
    | false =>
      obtain ⟨first, rfl, rfl, met⟩ := exists_round p index stage files s
      rw [run_historyFrom_of_round p index stages hs met] at hr ⊢
      cases j with
      | zero =>
        obtain rfl : first = r := by
          split at hr <;> exact Option.some.inj hr
        exact ⟨hs, met⟩
      | succ j =>
        cases hg : first.goesOn p.config with
        | false =>
          rw [hg] at hr
          cases hr
        | true =>
          rw [hg] at hr
          have later := ih (index + 1) first.results (first.closed p.config) hr
          rw [Nat.add_assoc, Nat.add_comm 1] at later
          exact later

variable {sources : List Source} {s : Session}

theorem begin_round {j : Nat} {r : Round} (hr : (rounds p sources s)[j]? = some r) :
    let start := sessionAfter p.config s ((rounds p sources s).take j)
    start.context.cancelled = false ∧
      (meetAll p j r.stage r.files).run start = (r.turns, r.session) := by
  have began := begin_historyFrom 0 p.stages _ s hr
  rwa [Nat.zero_add] at began

/-- Where visits come one after the other, so do the turns. -/
theorem run_turns (sequential : p.config.parallel = false) {j : Nat} {r : Round}
    (hr : (rounds p sources s)[j]? = some r) :
    (meetEach p j r.stage r.files.length 0 r.files).run (sessionAfter p.config s ((rounds p sources s).take j)) =
      (r.turns, r.session) := by
  rw [← meetAll_of_sequential p sequential]
  exact (begin_round hr).2

theorem turnSession_eq {j : Nat} {r : Round} (hr : (rounds p sources s)[j]? = some r) (m : Nat) :
    turnSession p sources s j m = r.sessionAt p j (sessionAfter p.config s ((rounds p sources s).take j)) m := by
  rw [turnSession, hr]

theorem turnSession_min {j : Nat} {r : Round} (hr : (rounds p sources s)[j]? = some r) (m : Nat) :
    turnSession p sources s j m = turnSession p sources s j (min m sources.length) := by
  have bound : r.files.length = sources.length := length_files (List.mem_of_getElem? hr)
  rw [turnSession_eq hr, turnSession_eq hr, Round.sessionAt, Round.sessionAt, ← List.take_take, ← bound,
    List.take_length]

theorem run_visitFile_turn (sequential : p.config.parallel = false) {j m : Nat} {r : Round} {t : Turn}
    (hr : (rounds p sources s)[j]? = some r) (ht : r.turns[m]? = some t) :
    ((encounter p.config r.stage t.file.after).run (turnSession p sources s j m)).1 = t.encounter ∧
      ((visitFile p.config r.stage t.file.after).run (turnSession p sources s j m)).1 = r.outcome t := by
  have met : ((encounter p.config r.stage t.file.after).run (turnSession p sources s j m)).1 = t.encounter := by
    rw [turnSession_eq hr]
    refine encounter_meetEach j r.files.length 0 r.files _ ?_
    rwa [run_turns sequential hr]
  refine ⟨met, ?_⟩
  rw [visitFile_eq_encounter, StateT.run_map]
  exact congrArg (Encounter.outcome r.stage.name t.file.after) met

theorem file_turn {j m : Nat} {r : Round} {t : Turn} (hr : (rounds p sources s)[j]? = some r)
    (ht : r.turns[m]? = some t) :
    (resultsAfter (sources.map FileResult.start) ((rounds p sources s).take j))[m]? = some t.file := by
  rw [← (p.follows_rounds sources s).files_eq hr, Round.files, List.getElem?_map, ht, Option.map_some]

theorem effects_turn (sequential : p.config.parallel = false) {j m : Nat} {r : Round} {t : Turn}
    (hr : (rounds p sources s)[j]? = some r) (ht : r.turns[m]? = some t) (given : Effects p sources s j m t.file)
    (going : (turnSession p sources s j m).context.cancelled = false) (ended : (r.outcome t).isCancelled = false) :
    Effects p sources s (j + 1) m (r.amended t) :=
  .stage given ((p.follows_rounds sources s).stage_eq hr) going (run_visitFile_turn sequential hr ht).2 ended

theorem rounds_of_cancelled (hs : s.context.cancelled = true) : rounds p sources s = [] := by
  rw [rounds]
  cases p.stages with
  | nil => rfl
  | cons stage stages => rw [run_historyFrom_of_cancelled p 0 stage stages _ hs]

/-- No stage begins in a session that was asked to stop. -/
theorem cut_of_late (hs : s.context.cancelled = true) {result : RecipeRun}
    (hresult : result.results =
      (resultsAfter (sources.map FileResult.start) (rounds p sources s)).map conclude) :
    Cut p sources s result 0 0 := by
  have none_begun : rounds p sources s = [] := rounds_of_cancelled hs
  have given {m : Nat} {f : FileResult} (hf : result.results[m]? = some f) :
      ∃ g, Effects p sources s 0 m g ∧ f = conclude g := by
    rw [hresult, none_begun, resultsAfter, List.map_map, List.getElem?_map, Option.map_eq_some_iff] at hf
    obtain ⟨source, hsource, rfl⟩ := hf
    exact ⟨_, .given hsource, rfl⟩
  constructor
  case stage => exact List.length_pos_iff.2
  case position => exact List.length_pos_iff.2
  case inputs =>
    rw [hresult]
    exact map_before_concluded p sources s
  case before => exact fun m f hm => absurd hm (Nat.not_lt_zero m)
  case behind => exact fun m f _ hf => given hf
  case here =>
    intro f hf
    obtain ⟨g, had, rfl⟩ := given hf
    exact ⟨g, .inl had, rfl⟩
  case visits =>
    intro j m r t hr
    rw [none_begun] at hr
    cases hr
  case request =>
    intro going
    rw [hs] at going
    cases going

variable (h : Interruptible p)
include h

theorem Interruptible.stays_turn {j : Nat} {r : Round} (hr : (rounds p sources s)[j]? = some r) (m : Nat)
    (hm : (turnSession p sources s j m).context.cancelled = true) :
    (turnSession p sources s j (m + 1)).context.cancelled = true := by
  rw [turnSession_eq hr] at hm ⊢
  exact h.stays j r.files.length 0 r.files _ m hm

theorem Interruptible.outcome_turn {j m : Nat} {r : Round} {t : Turn} (hr : (rounds p sources s)[j]? = some r)
    (ht : r.turns[m]? = some t) (going : (turnSession p sources s j (m + 1)).context.cancelled = false) :
    (r.outcome t).isCancelled = false := by
  by_contra hc
  rw [Bool.not_eq_false] at hc
  have raised : (turnSession p sources s j (m + 1)).context.cancelled = true := by
    rw [turnSession_eq hr]
    refine h.cancelled_turn j r.files.length ((p.follows_rounds sources s).stage_mem (List.mem_of_getElem? hr)) 0
      r.files _ ?_ hc
    rwa [run_turns h.sequential hr]
  rw [going] at raised
  cases raised

theorem Interruptible.effects_of_early {n m : Nat} {f : FileResult} (begun : n ≤ (rounds p sources s).length)
    (unasked : ∀ j < n, (turnSession p sources s j (m + 1)).context.cancelled = false)
    (hf : (resultsAfter (sources.map FileResult.start) ((rounds p sources s).take n))[m]? = some f) :
    Effects p sources s n m f := by
  induction n generalizing f with
  | zero =>
    rw [List.take_zero, resultsAfter, List.getElem?_map, Option.map_eq_some_iff] at hf
    obtain ⟨source, hsource, rfl⟩ := hf
    exact .given hsource
  | succ n ih =>
    have hr : (rounds p sources s)[n]? = some (rounds p sources s)[n] := List.getElem?_eq_getElem begun
    rw [resultsAfter_take_succ _ hr, Round.results, List.getElem?_map, Option.map_eq_some_iff] at hf
    obtain ⟨t, ht, rfl⟩ := hf
    have last := unasked n (Nat.lt_succ_self n)
    have given : Effects p sources s n m t.file :=
      ih (Nat.le_of_succ_le begun) (fun j hj => unasked j (Nat.lt_succ_of_lt hj)) (file_turn hr ht)
    refine effects_turn h.sequential hr ht given ?_ (h.outcome_turn hr ht last)
    by_contra raised
    rw [Bool.not_eq_false] at raised
    rw [h.stays_turn hr m raised] at last
    cases last

/-- The request to stop comes with one turn of the last round. -/
theorem Interruptible.exists_cut (hs : s.context.cancelled = false)
    (hc : (sessionAfter p.config s (rounds p sources s)).context.cancelled = true) :
    ∃ k i, (rounds p sources s).length = k + 1 ∧ i < sources.length ∧
      ∀ j m, j ≤ k → ((turnSession p sources s j m).context.cancelled = true ↔ j = k ∧ i < m) := by
  have begins {j : Nat} {r : Round} (hr : (rounds p sources s)[j]? = some r) :
      (turnSession p sources s j 0).context.cancelled = false := by
    rw [turnSession_eq hr]
    exact (begin_round hr).1
  have ends {j : Nat} {r : Round} (hr : (rounds p sources s)[j]? = some r) :
      turnSession p sources s j sources.length = r.session := by
    rw [turnSession_eq hr, Round.sessionAt, ← length_files (List.mem_of_getElem? hr), List.take_length,
      run_turns h.sequential hr]
  obtain ⟨k, hk⟩ : ∃ k, (rounds p sources s).length = k + 1 := by
    refine Nat.exists_eq_succ_of_ne_zero fun none_begun => ?_
    rw [List.length_eq_zero_iff.1 none_begun] at hc
    exact absurd (hs.symm.trans hc) (by simp)
  have begun {j : Nat} (hj : j ≤ k) : ∃ r, (rounds p sources s)[j]? = some r :=
    ⟨_, List.getElem?_eq_getElem (by omega)⟩
  obtain ⟨last, hlast⟩ := begun (Nat.le_refl k)
  have raised : last.session.context.cancelled = true := by
    have all : (rounds p sources s).take (k + 1) = rounds p sources s := List.take_of_length_le (Nat.le_of_eq hk)
    rwa [← all, sessionAfter_take_succ _ _ hlast, Round.closed, Session.cancelled_tell] at hc
  have stop : (turnSession p sources s k sources.length).context.cancelled = true := by rw [ends hlast, raised]
  obtain ⟨i, hi, turns⟩ := exists_turning_point (h.stays_turn hlast) (begins hlast) stop
  refine ⟨k, i, hk, hi, fun j m hj => ?_⟩
  obtain rfl | earlier := Nat.eq_or_lt_of_le hj
  · rw [turns m]
    simp
  · refine iff_of_false (fun hm => ?_) (by omega)
    -- a request in an earlier round would have kept the next one from beginning
    obtain ⟨r, hr⟩ := begun hj
    obtain ⟨next, hnext⟩ := begun earlier
    have unasked := (begin_round hnext).1
    rw [sessionAfter_take_succ _ _ hr, Round.closed, Session.cancelled_tell, ← ends hr] at unasked
    rw [turnSession_min hr] at hm
    rw [stays_of_le (h.stays_turn hr) (Nat.min_le_right m _) hm] at unasked
    cases unasked

/-- The point of the request is where the run was cut. -/
theorem Interruptible.cut {k i : Nat} (hk : (rounds p sources s).length = k + 1) (hi : i < sources.length)
    (turns : ∀ j m, j ≤ k → ((turnSession p sources s j m).context.cancelled = true ↔ j = k ∧ i < m))
    {result : RecipeRun}
    (hresult : result.results =
      (resultsAfter (sources.map FileResult.start) (rounds p sources s)).map conclude) :
    Cut p sources s result k i := by
  have follows := p.follows_rounds sources s
  have unasked {j m : Nat} (hj : j ≤ k) (early : ¬(j = k ∧ i < m)) :
      (turnSession p sources s j m).context.cancelled = false :=
    Bool.eq_false_iff.2 fun raised => early ((turns j m hj).1 raised)
  obtain ⟨last, hlast⟩ : ∃ r, (rounds p sources s)[k]? = some r := ⟨_, List.getElem?_eq_getElem (by omega)⟩
  have all : (rounds p sources s).take (k + 1) = rounds p sources s := List.take_of_length_le (Nat.le_of_eq hk)
  -- a result is what the file's turn in the last round left
  have ended {m : Nat} {f : FileResult} (hf : result.results[m]? = some f) :
      ∃ t, last.turns[m]? = some t ∧ f = conclude (last.amended t) := by
    rw [hresult, ← all, resultsAfter_take_succ _ hlast, Round.results, List.map_map, List.getElem?_map,
      Option.map_eq_some_iff] at hf
    obtain ⟨t, ht, rfl⟩ := hf
    exact ⟨t, ht, rfl⟩
  have given {m : Nat} {t : Turn} (ht : last.turns[m]? = some t) : Effects p sources s k m t.file :=
    h.effects_of_early (by omega) (fun j hj => unasked (Nat.le_of_lt hj) (by omega)) (file_turn hlast ht)
  have late {m : Nat} {t : Turn} (ht : last.turns[m]? = some t) (hm : i < m) : t.encounter = .late := by
    rw [← (run_visitFile_turn h.sequential hlast ht).1,
      run_encounter_late p.config _ _ ((turns k m (Nat.le_refl k)).2 ⟨rfl, hm⟩)]
  constructor
  case stage =>
    intro _
    have bound := follows.length_le
    omega
  case position => exact fun _ => hi
  case inputs =>
    rw [hresult]
    exact map_before_concluded p sources s
  case before =>
    intro m f hm hf
    obtain ⟨t, ht, rfl⟩ := ended hf
    have had := h.outcome_turn hlast ht (unasked (Nat.le_refl k) (by omega))
    exact ⟨_, effects_turn h.sequential hlast ht (given ht) (unasked (Nat.le_refl k) (by omega)) had, rfl⟩
  case behind =>
    intro m f hm hf
    obtain ⟨t, ht, rfl⟩ := ended hf
    refine ⟨t.file, given ht, ?_⟩
    rw [Round.amended, Round.outcome, late ht hm]
    rfl
  case here =>
    intro f hf
    obtain ⟨t, ht, rfl⟩ := ended hf
    cases hc : (last.outcome t).isCancelled with
    | true => exact ⟨t.file, .inl (given ht), congrArg conclude (FileResult.amend_of_cancelled _ _ hc)⟩
    | false =>
      have had := effects_turn h.sequential hlast ht (given ht) (unasked (Nat.le_refl k) (by omega)) hc
      exact ⟨_, .inr had, rfl⟩
  case visits =>
    intro j m r t hr ht visit
    have bound := (List.getElem?_eq_some_iff.1 hr).1
    obtain rfl | earlier := Nat.eq_or_lt_of_le (show j ≤ k by omega)
    · obtain rfl := Option.some.inj (hlast.symm.trans hr)
      refine .inr ⟨rfl, Nat.not_lt.1 fun hm => ?_⟩
      rw [late ht hm] at visit
      cases visit
    · exact .inl earlier
  case request =>
    exact fun _ => ⟨unasked (Nat.le_refl k) (by omega), (turns k (i + 1) (Nat.le_refl k)).2 ⟨rfl, Nat.lt_succ_self i⟩⟩

end Rounds

/-- A run that was asked to stop has all turns up to one point and none behind it. -/
theorem cut_of_cancelled {p : Pipeline} (h : Interruptible p) (sources : List Source) (s : Session) :
    ∃ result s', (run p sources).run.run s = (.ok result, s') ∧
      (s'.context.cancelled = true → ∃ k i, Cut p sources s result k i) := by
  obtain ⟨result, s', hrun⟩ := run_of_not_failFast p h.tolerant sources s
  refine ⟨result, s', hrun, fun hc => ?_⟩
  have hresult := (of_run_eq_ok p hrun).1
  cases hs : s.context.cancelled with
  | true => exact ⟨0, 0, cut_of_late hs hresult⟩
  | false =>
    have hsession : s' = sessionAfter p.config s (rounds p sources s) := by
      rw [run_eq_rounds] at hrun
      exact (congrArg Prod.snd hrun).symm
    rw [hsession] at hc
    obtain ⟨k, i, hk, hi, turns⟩ := h.exists_cut hs hc
    exact ⟨k, i, h.cut hk hi turns hresult⟩

/-- Marks a text; at the text `1` it asks the run to stop, and marks it still. -/
def marking (mark : String) : SourceVisitor where
  accepts _ := true
  visit
    | .text t => do
      if t.text = "1" then Visiting.modifyContext Context.cancel
      return .changed (.text { t with text := t.text ++ mark })
    | .markup _ => return .unchanged

def markedTwice : Pipeline where
  recipes := []
  stages := [⟨"one", some (marking "1"), ["one"]⟩, ⟨"two", some (marking "2"), ["two"]⟩]
  config := { parallel := false }

theorem interruptible_markedTwice : Interruptible markedTwice where
  sequential := rfl
  tolerant := rfl
  once := rfl
  asked stage hstage v hv source s answered := by
    obtain ⟨mark, rfl⟩ : ∃ mark, v = marking mark := by
      obtain rfl | hstage := List.mem_cons.1 hstage
      · exact ⟨"1", (Option.some.inj hv).symm⟩
      · obtain rfl := List.mem_singleton.1 hstage
        exact ⟨"2", (Option.some.inj hv).symm⟩
    cases source with
    | markup d => cases answered
    | text t =>
      by_cases h : t.text = "1"
      · simp only [marking, h, if_true] at answered
        cases answered
      · simp only [marking, h, if_false] at answered
        cases answered
  progress _ _ hs := hs

def threeTexts : List Source :=
  [.text ⟨.none, ⟨"a.txt"⟩, [], "a"⟩, .text ⟨.none, ⟨"b.txt"⟩, [], ""⟩, .text ⟨.none, ⟨"c.txt"⟩, [], "c"⟩]

/-- The request comes while the second text meets the second stage, and the third text does not meet it. -/
theorem cut_of_cancelled_markedTwice :
    Interruptible markedTwice ∧ ∃ result s', (markedTwice.run threeTexts).run.run {} = (.ok result, s') ∧
      s'.context.cancelled = true ∧ result.results.map (·.after.print) = ["a12", "12", "c1"] ∧
      ∃ k i, Cut markedTwice threeTexts {} result k i := by
  obtain ⟨result, s', hrun, cut⟩ := cut_of_cancelled interruptible_markedTwice threeTexts {}
  have ended : ((markedTwice.run threeTexts).run.run {}).2.context.cancelled = true := rfl
  have printed : ((markedTwice.run threeTexts).run.run {}).1.map (·.results.map (·.after.print)) =
      .ok ["a12", "12", "c1"] := rfl
  rw [hrun] at ended printed
  exact ⟨interruptible_markedTwice, result, s', hrun, ended, Except.ok.inj printed, cut ended⟩

end Emend.Pipeline
