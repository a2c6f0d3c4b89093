import Emend.Proofs.Pipeline.Accounts
import Emend.Proofs.Pipeline.Agreement

/-! # Changes that stand a second visit

With `checkIdempotence` a stage keeps an accepted change exactly if a second visit leaves the changed file as it is,
or changes it into the same. Where every change stands, the check shows in nothing that a run comes to
(`idempotence_check_filters`).
-/

namespace Emend.Pipeline

/-- Visitors answer by the file alone; who is told of the progress may ask the run to stop, by what it is told. -/
structure Steady (p : Pipeline) : Prop where
  visitors : ∀ stage ∈ p.stages, ∀ v ∈ stage.visitor, ∃ reply, v.Decides reply
  progress : ∀ info s t, s.Agrees t → ((p.progress info).run s).2.Agrees ((p.progress info).run t).2

def withCheck (p : Pipeline) (checkIdempotence : Bool) : Pipeline :=
  { p with config := { p.config with checkIdempotence } }

variable {reply : Source → Except Abort (Visit Source)}

/-- A visit changes `source` into `x`, which is not the same but is the same file. -/
structure AcceptedChange (reply : Source → Except Abort (Visit Source)) (source x : Source) : Prop where
  changed : reply source = .ok (.changed x)
  differs : SameAs.same x source = false
  sameFile : SameFile x source

/-- A visit leaves `x` as it is, or changes it into the same. -/
def Stands (reply : Source → Except Abort (Visit Source)) (x : Source) : Prop :=
  reply x = .ok .unchanged ∨ ∃ y, reply x = .ok (.changed y) ∧ SameAs.same y x = true

/-- Whatever a stage's visitor changes a file into stands a second visit. -/
def AllStand (p : Pipeline) : Prop :=
  ∀ stage ∈ p.stages, ∀ v ∈ stage.visitor, ∀ reply, v.Decides reply → ∀ source x, v.accepts source = true →
    AcceptedChange reply source x → Stands reply x

def objection? (recipe : String) (reply : Source → Except Abort (Visit Source)) (x : Source) : Option Error :=
  Encounter.objection? recipe x (answer recipe x.path (reply x))

theorem objection?_eq_none {recipe : String} {x : Source} : objection? recipe reply x = none ↔ Stands reply x := by
  unfold objection? Stands
  match reply x with
  | .ok .unchanged => simp [answer, Encounter.objection?]
  | .ok (.changed y) => simp [answer, Encounter.objection?]
  | .error (.error e) => simp [answer, Encounter.objection?]
  | .error (.crash (some m)) => simp [answer, Encounter.objection?]
  | .error (.crash none) => simp [answer, Encounter.objection?]

section Decided

variable (config : PipelineConfig) (recipe : String)

/-- How a visited file meets the stage, where the visitor answers by the file alone. -/
def decided (reply : Source → Except Abort (Visit Source)) (source : Source) : Encounter :=
  .visited (answer recipe source.path (reply source))
    ((toRevisit? config source (answer recipe source.path (reply source))).map fun x => answer recipe x.path (reply x))

theorem toRevisit?_of_accepted {source x : Source} (h : AcceptedChange reply source x)
    (hc : config.checkIdempotence = true) :
    toRevisit? config source (answer recipe source.path (reply source)) = some x := by
  have consistent : checkConsistent source x = .ok () := checkConsistent_eq_ok.2 h.sameFile
  rw [h.changed]
  simp [answer, toRevisit?_changed, hc, h.differs, consistent, Except.toBool]

theorem accepted_of_toRevisit? {source x : Source}
    (h : toRevisit? config source (answer recipe source.path (reply source)) = some x) :
    AcceptedChange reply source x := by
  obtain ⟨answered, -, differs, consistent⟩ := toRevisit?_eq_some h
  exact ⟨answer_eq_ok.1 answered, differs, checkConsistent_eq_ok.1 consistent⟩

theorem outcome_visited_of_accepted {source x : Source} (h : AcceptedChange reply source x) (second : Option Reply) :
    Encounter.outcome recipe source (.visited (answer recipe source.path (reply source)) second) =
      match second.bind (Encounter.objection? recipe x) with
      | some e => .failed e
      | none => .changed x := by
  have consistent : checkConsistent source x = .ok () := checkConsistent_eq_ok.2 h.sameFile
  rw [h.changed]
  cases held : second.bind (Encounter.objection? recipe x) with
  | none =>
    simp only [answer, Encounter.outcome, Encounter.ofChange, h.differs, consistent, held, Bool.false_eq_true, if_false]
  | some e =>
    simp only [answer, Encounter.outcome, Encounter.ofChange, h.differs, consistent, held, Bool.false_eq_true, if_false]

/-- With the check an accepted change is kept if nothing is held against it. -/
theorem outcome_decided_of_accepted {source x : Source} (h : AcceptedChange reply source x)
    (hc : config.checkIdempotence = true) :
    (decided config recipe reply source).outcome recipe source =
      match objection? recipe reply x with
      | some e => .failed e
      | none => .changed x := by
  rw [decided, toRevisit?_of_accepted config recipe h hc, outcome_visited_of_accepted recipe h]
  rfl

/-- Where accepted changes stand, what comes of a file is what the first visit makes of it. -/
theorem outcome_decided_of_stands {source : Source} (h : ∀ x, AcceptedChange reply source x → Stands reply x) :
    (decided config recipe reply source).outcome recipe source =
      Encounter.outcome recipe source (.visited (answer recipe source.path (reply source)) none) := by
  unfold decided
  cases hr : toRevisit? config source (answer recipe source.path (reply source)) with
  | none => rfl
  | some x =>
    have accepted := accepted_of_toRevisit? config recipe hr
    have unobjected : objection? recipe reply x = none := objection?_eq_none.2 (h x accepted)
    rw [Option.map_some, outcome_visited_of_accepted recipe accepted, outcome_visited_of_accepted recipe accepted,
      Option.bind_some, ← objection?, unobjected]
    rfl

end Decided

theorem run_encounter_decided (config : PipelineConfig) {stage : Stage} {v : SourceVisitor} {source : Source}
    {s : Session} (visitor : stage.visitor = some v) (decides : v.Decides reply) (accepted : v.accepts source = true)
    (hs : s.context.cancelled = false) :
    ∃ s', (encounter config stage source).run s = (decided config stage.name reply source, s') ∧
      s'.context.cancelled = false := by
  obtain ⟨s₁, first, h₁⟩ : ∃ s₁, (guarded stage.name source.path (v.visit source)).run s =
      (answer stage.name source.path (reply source), s₁) ∧ s₁.context.cancelled = false :=
    run_guarded_of_decides decides hs stage.name
  cases hr : toRevisit? config source (answer stage.name source.path (reply source)) with
  | none =>
    refine ⟨s₁, ?_, h₁⟩
    rw [decided, hr]
    exact run_encounter_visited config stage hs visitor accepted first hr
  | some x =>
    obtain ⟨s₂, second, h₂⟩ : ∃ s₂, (guarded stage.name x.path (v.visit x)).run s₁ =
        (answer stage.name x.path (reply x), s₂) ∧ s₂.context.cancelled = false :=
      run_guarded_of_decides decides h₁ stage.name
    refine ⟨s₂, ?_, h₂⟩
    rw [decided, hr]
    exact run_encounter_revisited config stage hs visitor accepted first hr second

section Both

variable {p : Pipeline}

/-- Two sessions that runs with and without the check may have come to. -/
structure Level (p : Pipeline) (s t : Session) : Prop where
  stop : s.Agrees t
  failures : Quiet p → s.context.failures = t.context.failures

theorem Level.tell {s t : Session} (h : Level p s t) (failures : List Failure) :
    Level p (s.tell failures) (t.tell failures) where
  stop := by
    rw [Session.Agrees, Session.cancelled_tell, Session.cancelled_tell]
    exact h.stop
  failures quiet := by rw [Session.failures_tell, Session.failures_tell, h.failures quiet]

theorem Quiet.withCheck (h : Quiet p) (check : Bool) : Quiet (p.withCheck check) := ⟨h.visitors, h.progress⟩

/-- With the check a file meets a stage as it does without, up to the second visit. -/
theorem exists_encounters (h : Steady p) (stand : AllStand p) {stage : Stage} (hstage : stage ∈ p.stages)
    (source : Source) {s t : Session} (hst : s.Agrees t) :
    ∃ e e' s' t', (encounter (p.withCheck true).config stage source).run s = (e, s') ∧
      (encounter (p.withCheck false).config stage source).run t = (e', t') ∧
      e.outcome stage.name source = e'.outcome stage.name source ∧ s'.Agrees t' := by
  cases hs : s.context.cancelled with
  | true =>
    have ht : t.context.cancelled = true := hst.symm.trans hs
    exact ⟨_, _, _, _, run_encounter_late _ stage source hs, run_encounter_late _ stage source ht, rfl, hst⟩
  | false =>
    have ht : t.context.cancelled = false := hst.symm.trans hs
    by_cases refused : ∀ v ∈ stage.visitor, v.accepts source = false
    · exact ⟨_, _, _, _, run_encounter_passed _ stage hs refused, run_encounter_passed _ stage ht refused, rfl, hst⟩
    · simp only [Classical.not_forall, Bool.not_eq_false] at refused
      obtain ⟨v, visitor, accepted⟩ := refused
      obtain ⟨reply, decides⟩ := h.visitors stage hstage v visitor
      have stands (x : Source) (hx : AcceptedChange reply source x) : Stands reply x :=
        stand stage hstage v visitor reply decides source x accepted hx
      obtain ⟨s', hs', going⟩ := run_encounter_decided (p.withCheck true).config visitor decides accepted hs
      obtain ⟨t', ht', going'⟩ := run_encounter_decided (p.withCheck false).config visitor decides accepted ht
      refine ⟨_, _, s', t', hs', ht', ?_, going.trans going'.symm⟩
      rw [outcome_decided_of_stands _ _ stands, outcome_decided_of_stands _ _ stands]

theorem level_visitFile (h : Steady p) (stand : AllStand p) {stage : Stage} (hstage : stage ∈ p.stages)
    (source : Source) {s t : Session} (hst : Level p s t) :
    ∃ o s' t', (visitFile (p.withCheck true).config stage source).run s = (o, s') ∧
      (visitFile (p.withCheck false).config stage source).run t = (o, t') ∧ Level p s' t' := by
  obtain ⟨e, e', s', t', hs, ht, same, agrees⟩ := exists_encounters h stand hstage source hst.stop
  refine ⟨e.outcome stage.name source, s', t', ?_, ?_, agrees, fun quiet => ?_⟩
  · rw [visitFile_eq_encounter, StateT.run_map, hs]
    rfl
  · rw [visitFile_eq_encounter, StateT.run_map, ht, same]
    rfl
  · have kept := (quiet.withCheck true).encounter hstage source s
    have kept' := (quiet.withCheck false).encounter hstage source t
    rw [hs] at kept
    rw [ht] at kept'
    exact kept.trans ((hst.failures quiet).trans kept'.symm)

theorem level_visitEach (h : Steady p) (stand : AllStand p) (index : Nat) {stage : Stage} (hstage : stage ∈ p.stages)
    (files done : Nat) (rs : List FileResult) {s t : Session} (hst : Level p s t) :
    ∃ os s' t', os.length = rs.length ∧ (visitEach (p.withCheck true) index stage files done rs).run s = (os, s') ∧
      (visitEach (p.withCheck false) index stage files done rs).run t = (os, t') ∧ Level p s' t' := by
  induction rs generalizing done s t with
  | nil => exact ⟨[], s, t, rfl, rfl, rfl, hst⟩
  | cons r rs ih =>
    obtain ⟨o, s₁, t₁, hs₁, ht₁, hst₁⟩ := level_visitFile h stand hstage r.after hst
    let info : Progress := ⟨index, p.stages.length, stage.name, files, done + 1, r.before.path⟩
    have told : Level p ((p.progress info).run s₁).2 ((p.progress info).run t₁).2 :=
      ⟨h.progress info s₁ t₁ hst₁.stop, fun quiet =>
        (quiet.progress info s₁).trans ((hst₁.failures quiet).trans (quiet.progress info t₁).symm)⟩
    obtain ⟨os, s₂, t₂, length, hs₂, ht₂, hst₂⟩ := ih (done + 1) told
    refine ⟨o :: os, s₂, t₂, congrArg Nat.succ length, ?_, ?_, hst₂⟩
    · simp only [visitEach, StateT.run_bind, hs₁]
      exact congrArg (Prod.map (o :: ·) id) hs₂
    · simp only [visitEach, StateT.run_bind, ht₁]
      exact congrArg (Prod.map (o :: ·) id) ht₂

theorem level_visitAll (h : Steady p) (stand : AllStand p) (index : Nat) {stage : Stage} (hstage : stage ∈ p.stages)
    (rs : List FileResult) {s t : Session} (hst : Level p s t) :
    ∃ os s' t', os.length = rs.length ∧ (visitAll (p.withCheck true) index stage rs).run s = (os, s') ∧
      (visitAll (p.withCheck false) index stage rs).run t = (os, t') ∧ Level p s' t' := by
  obtain ⟨os, s', t', length, hs, ht, hst'⟩ :=
    level_visitEach h stand index hstage rs.length 0 (p.arrange index rs) hst
  refine ⟨p.restore index rs.length os, s', t', ?_, ?_, ?_, hst'⟩
  · exact p.length_restore index (length.trans (p.length_arrange index rs))
  · rw [visitAll_eq, StateT.run_map]
    exact congrArg (Prod.map (p.restore index rs.length) id) hs
  · rw [visitAll_eq, StateT.run_map]
    exact congrArg (Prod.map (p.restore index rs.length) id) ht

theorem run_record_withCheck (p : Pipeline) (check : Bool) (stage : Stage) {rs : List FileResult} {os : List Outcome}
    (length : os.length = rs.length) (s : Session) :
    (record (p.withCheck check).config stage rs os).run.run s =
      (stageEnd p.config stage (rs.zip os), s.tell (told p.config stage (rs.zip os))) := by
  have recorded := record_outcomes (p.withCheck check).config stage (rs.zip os) s
  rw [List.map_fst_zip (Nat.le_of_eq length.symm), List.map_snd_zip (Nat.le_of_eq length)] at recorded
  exact recorded

theorem level_runStages (h : Steady p) (stand : AllStand p) (index : Nat) {stages : List Stage}
    (hstages : stages ⊆ p.stages) (files : List FileResult) {s t : Session} (hst : Level p s t) :
    ∃ result s' t', (runStages (p.withCheck true) index stages files).run.run s = (result, s') ∧
      (runStages (p.withCheck false) index stages files).run.run t = (result, t') ∧ Level p s' t' := by
  induction stages generalizing index files s t with
  | nil => exact ⟨_, s, t, rfl, rfl, hst⟩
  | cons stage stages ih =>
    obtain ⟨hstage, hbehind⟩ := List.cons_subset.1 hstages
    simp only [runStages, run_get_bind]
    -- the sessions are level, so both runs ask the same question in front of the stage
    cases hs : s.context.cancelled with
    | true =>
      have ht : t.context.cancelled = true := hst.stop.symm.trans hs
      rw [ht]
      exact ⟨_, s, t, rfl, rfl, hst⟩
    | false =>
      have ht : t.context.cancelled = false := hst.stop.symm.trans hs
      rw [ht]
      obtain ⟨os, s₁, t₁, length, hs₁, ht₁, hst₁⟩ := level_visitAll h stand index hstage files hst
      have recorded := run_record_withCheck p true stage length s₁
      have recorded' := run_record_withCheck p false stage length t₁
      have hst₂ := hst₁.tell (told p.config stage (files.zip os))
      simp only [Bool.false_eq_true, if_false, run_liftM_bind, hs₁, ht₁]
      cases he : stageEnd p.config stage (files.zip os) with
      | error e =>
        rw [he] at recorded recorded'
        exact ⟨_, _, _, run_bind_of_error recorded, run_bind_of_error recorded', hst₂⟩
      | ok stageEnd =>
        rw [he] at recorded recorded'
        rw [run_bind_of_ok recorded, run_bind_of_ok recorded']
        cases stageEnd.cancelled with
        | true => exact ⟨_, _, _, rfl, rfl, hst₂⟩
        | false =>
          obtain ⟨result, s', t', hs', ht', hst'⟩ := ih (index + 1) hbehind stageEnd.results hst₂
          exact ⟨_, s', t', run_map_of_run hs', run_map_of_run ht', hst'⟩

theorem level_run (h : Steady p) (stand : AllStand p) (sources : List Source) (s : Session) :
    ∃ result s₁ s₂, ((p.withCheck true).run sources).run.run s = (result, s₁) ∧
      ((p.withCheck false).run sources).run.run s = (result, s₂) ∧ Level p s₁ s₂ := by
  obtain ⟨result, s₁, s₂, h₁, h₂, hlevel⟩ := level_runStages h stand 0 (List.Subset.refl _)
    (sources.map FileResult.start) ⟨rfl, fun _ => rfl⟩
  exact ⟨_, s₁, s₂, run_map_of_run h₁, run_map_of_run h₂, hlevel⟩

end Both

/-- Visited files meet a stage as its visitor decides. -/
theorem decided_invariant (p : Pipeline) : Invariant p (fun _ => True) fun stage source e =>
    e.isVisit = true → ∀ v ∈ stage.visitor, ∀ reply, v.Decides reply →
      e = decided p.config stage.name reply source where
  met stage _ source s _ visited v visitor reply decides := by
    cases hs : s.context.cancelled with
    | true =>
      rw [run_encounter_late p.config stage source hs] at visited
      cases visited
    | false =>
      cases accepted : v.accepts source with
      | false =>
        have refused : ∀ w ∈ stage.visitor, w.accepts source = false := by
          intro w hw
          obtain rfl := Option.some.inj (visitor.symm.trans hw)
          exact accepted
        rw [run_encounter_passed p.config stage hs refused] at visited
        cases visited
      | true =>
        obtain ⟨s', met, -⟩ := run_encounter_decided p.config visitor decides accepted hs
        rw [met]
  encounter _ _ _ _ _ := trivial
  progress _ _ _ := trivial
  tell _ _ _ := trivial

/-- What the check makes of a file that its visit changed. -/
theorem amended_of_accepted {p : Pipeline} (hc : p.config.checkIdempotence = true) {sources : List Source} {s : Session}
    {r : Round} (hr : r ∈ rounds p sources s) {t : Turn} (ht : t ∈ r.turns) (visited : t.encounter.isVisit = true)
    {v : SourceVisitor} (visitor : r.stage.visitor = some v) (decides : v.Decides reply) {x : Source}
    (accepted : AcceptedChange reply t.file.after x) :
    r.amended t = match objection? r.stage.name reply x with
      | some e =>
        { t.file with failures := t.file.failures ++ [Failure.of t.file.before.path (some r.stage.name) e] }
      | none => { t.file with after := x, applied := t.file.applied ++ [r.stage.name] } := by
  have met := ((decided_invariant p).follows sources trivial).met hr ht visited v visitor reply decides
  rw [Round.amended, Round.outcome, met, outcome_decided_of_accepted p.config r.stage.name accepted hc]
  cases objection? r.stage.name reply x <;> rfl

/-- The check keeps of the accepted changes those that stand, and where all do it changes nothing. -/
theorem idempotence_check_filters (p : Pipeline) (h : Steady p) (hf : p.config.failFast = false)
    (sources : List Source) (s : Session) :
    (∃ result s', ((p.withCheck true).run sources).run.run s = (.ok result, s') ∧
      result.results =
        (resultsAfter (sources.map FileResult.start) (rounds (p.withCheck true) sources s)).map conclude ∧
      ∀ r ∈ rounds (p.withCheck true) sources s, ∀ t ∈ r.turns, t.encounter.isVisit = true →
        ∀ v ∈ r.stage.visitor, ∀ reply, v.Decides reply → ∀ x, AcceptedChange reply t.file.after x →
          ((r.amended t).after = x ↔ Stands reply x) ∧
          (Stands reply x → r.amended t = { t.file with after := x, applied := t.file.applied ++ [r.stage.name] }) ∧
          (¬Stands reply x → ∃ e, objection? r.stage.name reply x = some e ∧ r.amended t = { t.file with
            failures := t.file.failures ++ [Failure.of t.file.before.path (some r.stage.name) e] })) ∧
    (AllStand p → ∃ result s₁ s₂, ((p.withCheck true).run sources).run.run s = (.ok result, s₁) ∧
      ((p.withCheck false).run sources).run.run s = (.ok result, s₂) ∧
      (Quiet p → s₁.context.failures = s₂.context.failures)) := by
  constructor
  · obtain ⟨result, s', hrun⟩ := run_of_not_failFast (p.withCheck true) hf sources s
    refine ⟨result, s', hrun, (of_run_eq_ok _ hrun).1, fun r hr t ht visited v visitor reply decides x accepted => ?_⟩
    have amended := amended_of_accepted (p := p.withCheck true) rfl hr ht visited visitor decides accepted
    have moved : t.file.after ≠ x := by
      rintro rfl
      have same := ReflSameAs.same_self t.file.after
      rw [accepted.differs] at same
      cases same
    cases ho : objection? r.stage.name reply x with
    | none =>
      have stands := objection?_eq_none.1 ho
      rw [ho] at amended
      exact ⟨iff_of_true (by rw [amended]) stands, fun _ => amended, fun falls => absurd stands falls⟩
    | some e =>
      have falls : ¬Stands reply x := fun stands => by
        rw [objection?_eq_none.2 stands] at ho
        cases ho
      rw [ho] at amended
      exact ⟨iff_of_false (by rw [amended]; exact moved) falls, fun stands => absurd stands falls,
        fun _ => ⟨e, rfl, amended⟩⟩
  · intro stand
    obtain ⟨result, s₁, s₂, h₁, h₂, level⟩ := level_run h stand sources s
    obtain ⟨ok, s', hrun⟩ := run_of_not_failFast (p.withCheck true) hf sources s
    obtain rfl : .ok ok = result := congrArg Prod.fst (hrun.symm.trans h₁)
    exact ⟨ok, s₁, s₂, h₁, h₂, level.failures⟩

def cleared : Source → Except Abort (Visit Source)
  | .text t => if t.text.isEmpty then .ok .unchanged else .ok (.changed (.text { t with text := "" }))
  | .markup _ => .ok .unchanged

def cheered : Source → Except Abort (Visit Source)
  | .text t => .ok (.changed (.text { t with text := t.text ++ "!" }))
  | .markup _ => .ok .unchanged

def clearAlone : Pipeline where
  recipes := []
  stages := [⟨"clear", some (answering cleared), ["clear"]⟩]

def clearThenCheer : Pipeline where
  recipes := []
  stages := [⟨"clear", some (answering cleared), ["clear"]⟩, ⟨"cheer", some (answering cheered), ["cheer"]⟩]

def noteOf (text : String) : Source := .text ⟨.none, ⟨"a.txt"⟩, [], text⟩

theorem decides_cleared : (answering cleared).Decides cleared :=
  decides_answering fun source => by
    unfold cleared
    split
    · split <;> nofun
    · nofun

theorem decides_cheered : (answering cheered).Decides cheered :=
  decides_answering fun source => by
    unfold cheered
    split <;> nofun

theorem steady_clearAlone : Steady clearAlone where
  visitors stage hstage v hv := by
    obtain rfl := List.mem_singleton.1 hstage
    obtain rfl := Option.some.inj hv
    exact ⟨cleared, decides_cleared⟩
  progress _ _ _ hst := hst

theorem steady_clearThenCheer : Steady clearThenCheer where
  visitors stage hstage v hv := by
    obtain rfl | hstage := List.mem_cons.1 hstage
    · obtain rfl := Option.some.inj hv
      exact ⟨cleared, decides_cleared⟩
    · obtain rfl := List.mem_singleton.1 hstage
      obtain rfl := Option.some.inj hv
      exact ⟨cheered, decides_cheered⟩
  progress _ _ _ hst := hst

theorem allStand_clearAlone : AllStand clearAlone := by
  intro stage hstage v hv reply decides source x _ accepted
  obtain rfl := List.mem_singleton.1 hstage
  obtain rfl := Option.some.inj hv
  have replies (y : Source) : reply y = cleared y := (decides.answers y {} rfl).symm
  have given := (replies source).symm.trans accepted.changed
  refine .inl ((replies x).trans ?_)
  cases source with
  | markup d => cases given
  | text t =>
    simp only [cleared] at given
    split at given
    · cases given
    · cases given
      rfl

/-- Of two stages the first one's change stands and the second one's does not; without the second one the check shows
in nothing. -/
theorem idempotence_check_filters_clearThenCheer :
    Steady clearThenCheer ∧ AcceptedChange cheered (noteOf "") (noteOf "!") ∧ ¬Stands cheered (noteOf "!") ∧
    (∃ r t e, (rounds (clearThenCheer.withCheck true) [noteOf "x"] {})[1]? = some r ∧ r.turns = [t] ∧
      t.file.after = noteOf "" ∧ (r.amended t).after = noteOf "" ∧
      (r.amended t).failures = [Failure.of ⟨"a.txt"⟩ (some "cheer") e]) ∧
    Steady clearAlone ∧ AllStand clearAlone ∧ ∃ result s₁ s₂,
      ((clearAlone.withCheck true).run [noteOf "x"]).run.run {} = (.ok result, s₁) ∧
      ((clearAlone.withCheck false).run [noteOf "x"]).run.run {} = (.ok result, s₂) := by
  have accepted : AcceptedChange cheered (noteOf "") (noteOf "!") := ⟨rfl, by decide, rfl, by decide⟩
  have falls : ¬Stands cheered (noteOf "!") := by
    rintro (kept | ⟨y, again, same⟩)
    · cases kept
    · cases again
      exact absurd same (by decide)
  refine ⟨steady_clearThenCheer, accepted, falls, ?_, steady_clearAlone, allStand_clearAlone, ?_⟩
  · obtain ⟨⟨_, _, _, _, kept⟩, -⟩ := idempotence_check_filters _ steady_clearThenCheer rfl [noteOf "x"] {}
    let t : Turn := ⟨⟨noteOf "x", noteOf "", false, ["clear"], []⟩,
      .visited (.ok (.changed (noteOf "!"))) (some (.ok (.changed (noteOf "!!"))))⟩
    obtain ⟨r, hr, turns, stage⟩ : ∃ r, (rounds (clearThenCheer.withCheck true) [noteOf "x"] {})[1]? = some r ∧
        r.turns = [t] ∧ r.stage = ⟨"cheer", some (answering cheered), ["cheer"]⟩ := ⟨_, rfl, rfl, rfl⟩
    have ht : t ∈ r.turns := by
      rw [turns]
      exact List.mem_singleton_self t
    obtain ⟨-, -, fails⟩ := kept r (List.mem_of_getElem? hr) t ht rfl (answering cheered) (by rw [stage]; rfl)
      cheered decides_cheered (noteOf "!") accepted
    obtain ⟨e, -, amended⟩ := fails falls
    rw [stage] at amended
    exact ⟨r, t, e, hr, turns, rfl, by rw [amended], by rw [amended]; rfl⟩
  · obtain ⟨result, s₁, s₂, h₁, h₂, -⟩ :=
      (idempotence_check_filters _ steady_clearAlone rfl [noteOf "x"] {}).2 allStand_clearAlone
    exact ⟨result, s₁, s₂, h₁, h₂⟩

end Emend.Pipeline
