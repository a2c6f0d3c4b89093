import Emend.Proofs.Pipeline.Accounts
import Emend.Proofs.Pipeline.Agreement

/-! # The first failure

With `failFast` a run comes to its end with the round of the first failure, and up to there to the same rounds as
without (`rounds_withFailFast`). So it ends with the error behind the first failure of the run that goes on, and
where that one has none it is the same run (`failFast_ends_at_first_failure`).
-/

namespace Emend.Pipeline

def withFailFast (p : Pipeline) (failFast : Bool) : Pipeline := { p with config := { p.config with failFast } }

def Round.mishap? (r : Round) (t : Turn) : Option (Failure × Error) :=
  (r.outcome t).error?.map fun e => (Failure.of t.file.before.path (some r.stage.name) e, e)

def Round.mishaps (r : Round) : List (Failure × Error) := r.turns.filterMap r.mishap?

def mishaps (rounds : List Round) : List (Failure × Error) := rounds.flatMap Round.mishaps

/-- The rounds up to the first one with a failure. -/
def untilFailure : List Round → List Round
  | [] => []
  | r :: rounds => if r.mishaps.isEmpty then r :: untilFailure rounds else [r]

/-- For a run from one of the sessions the other would do as well. -/
def Comparable (p : Pipeline) (s t : Session) : Prop := s = t ∨ p.GoesByFile ∧ s.Agrees t

namespace Round

variable (r : Round) {config : PipelineConfig}

theorem map_fst_mishaps : r.mishaps.map Prod.fst = r.turns.filterMap r.failure? := by
  rw [mishaps, List.map_filterMap]
  refine List.filterMap_congr fun t _ => ?_
  rw [mishap?, Option.map_map]
  rfl

theorem map_snd_mishaps : r.mishaps.map Prod.snd = (r.turns.map r.outcome).filterMap Outcome.error? := by
  rw [mishaps, List.map_filterMap, List.filterMap_map]
  refine List.filterMap_congr fun t _ => ?_
  rw [mishap?, Option.map_map]
  exact congrFun Option.map_id _

theorem filterMap_failed : r.failed.filterMap id = r.mishaps.map Prod.fst := by
  rw [map_fst_mishaps, failed, List.filterMap_map]
  rfl

theorem abort?_of_failFast (h : config.failFast = true) : r.abort? config = r.mishaps.head?.map Prod.snd := by
  rw [abort?, Pipeline.abort?, if_pos h, ← map_snd_mishaps, List.head?_map]

theorem told_of_failFast (h : config.failFast = true) : r.told config = (r.mishaps.map Prod.fst).take 1 := by
  rw [told, Pipeline.told, if_pos h, map_fst_mishaps, entries, List.filterMap_map]
  rfl

end Round

section Failures

variable {config : PipelineConfig} (hf : config.failFast = true)

theorem mishaps_cons (r : Round) (rounds : List Round) : mishaps (r :: rounds) = r.mishaps ++ mishaps rounds :=
  List.flatMap_cons

theorem mishaps_forget (rounds : List Round) : mishaps (rounds.map Round.forget) = mishaps rounds := by
  rw [mishaps, List.flatMap_map]
  rfl

theorem untilFailure_cons_of_nil {r : Round} (h : r.mishaps = []) (later : List Round) :
    untilFailure (r :: later) = r :: untilFailure later := by
  rw [untilFailure, h, if_pos List.isEmpty_nil]

theorem untilFailure_cons_of_cons {r : Round} {first : Failure × Error} {others : List (Failure × Error)}
    (h : r.mishaps = first :: others) (later : List Round) : untilFailure (r :: later) = [r] := by
  rw [untilFailure, h, if_neg (by simp)]

theorem untilFailure_of_none {rounds : List Round} (h : mishaps rounds = []) : untilFailure rounds = rounds := by
  induction rounds with
  | nil => rfl
  | cons r rounds ih =>
    rw [mishaps_cons, List.append_eq_nil_iff] at h
    rw [untilFailure_cons_of_nil h.1, ih h.2]

include hf

/-- What ends the run is the error behind the first failure. -/
theorem findSome?_abort?_untilFailure (rounds : List Round) :
    (untilFailure rounds).findSome? (·.abort? config) = (mishaps rounds).head?.map Prod.snd := by
  induction rounds with
  | nil => rfl
  | cons r rounds ih =>
    rw [mishaps_cons]
    cases hr : r.mishaps with
    | nil =>
      rw [untilFailure_cons_of_nil hr, List.findSome?_cons, r.abort?_of_failFast hf, hr]
      exact ih
    | cons first others =>
      rw [untilFailure_cons_of_cons hr, List.findSome?_singleton, r.abort?_of_failFast hf, hr]
      rfl

theorem told_untilFailure (rounds : List Round) :
    (untilFailure rounds).flatMap (·.told config) = ((mishaps rounds).map Prod.fst).take 1 := by
  induction rounds with
  | nil => rfl
  | cons r rounds ih =>
    rw [mishaps_cons]
    cases hr : r.mishaps with
    | nil =>
      rw [untilFailure_cons_of_nil hr, List.flatMap_cons, r.told_of_failFast hf, hr]
      exact ih
    | cons first others =>
      rw [untilFailure_cons_of_cons hr, List.flatMap_singleton, r.told_of_failFast hf, hr]
      rfl

end Failures

section WithFailFast

variable (p : Pipeline)

theorem meetEach_withFailFast (failFast : Bool) (index : Nat) (stage : Stage) (files done : Nat)
    (rs : List FileResult) :
    meetEach (p.withFailFast failFast) index stage files done rs = meetEach p index stage files done rs := by
  induction rs generalizing done with
  | nil => rfl
  | cons r rs ih =>
    rw [meetEach, meetEach, ih]
    rfl

theorem meetAll_withFailFast (failFast : Bool) (index : Nat) (stage : Stage) (files : List FileResult) :
    meetAll (p.withFailFast failFast) index stage files = meetAll p index stage files := by
  rw [meetAll, meetEach_withFailFast]
  rfl

theorem Round.goesOn_withoutFailFast (r : Round) : r.goesOn (p.withFailFast false).config = !r.cancelled := by
  rw [Round.goesOn, Round.abort?, abort?_of_not_failFast _ rfl]
  rfl

theorem Round.goesOn_withFailFast (r : Round) :
    r.goesOn (p.withFailFast true).config = (r.mishaps.isEmpty && !r.cancelled) := by
  rw [Round.goesOn, r.abort?_of_failFast rfl]
  cases r.mishaps <;> rfl

theorem Round.closed_withFailFast {r : Round} (h : r.mishaps = []) :
    r.closed (p.withFailFast true).config = r.closed (p.withFailFast false).config := by
  have goes_on : r.abort? (p.withFailFast true).config = none := by
    rw [r.abort?_of_failFast rfl, h]
    rfl
  rw [Round.closed, Round.closed, Round.told_of_abort?_eq_none goes_on,
    Round.told_of_abort?_eq_none (abort?_of_not_failFast _ rfl _)]

/-- Until a round has a failure there is nothing to tell the two runs apart. -/
theorem historyFrom_withFailFast (index : Nat) (stages : List Stage) (files : List FileResult) (s : Session) :
    ((historyFrom (p.withFailFast true) index stages files).run s).1 =
      untilFailure ((historyFrom (p.withFailFast false) index stages files).run s).1 := by
  induction stages generalizing index files s with
  | nil => rfl
  | cons stage stages ih =>
    cases hs : s.context.cancelled with
    | true =>
      rw [run_historyFrom_of_cancelled _ index stage stages files hs,
        run_historyFrom_of_cancelled _ index stage stages files hs]
      rfl
    | false =>
      obtain ⟨r, rfl, rfl, met⟩ := exists_round (p.withFailFast false) index stage files s
      have met' : (meetAll (p.withFailFast true) index r.stage r.files).run s = (r.turns, r.session) := by
        rw [meetAll_withFailFast, ← meetAll_withFailFast p false, met]
      rw [run_historyFrom_of_round _ index stages hs met, run_historyFrom_of_round _ index stages hs met']
      rw [r.goesOn_withoutFailFast, r.goesOn_withFailFast]
      -- a round without failures closes alike in both runs, and the next one begins in the same session
      cases hr : r.mishaps with
      | nil =>
        rw [Round.closed_withFailFast p hr]
        cases r.cancelled with
        | true => exact (untilFailure_cons_of_nil hr []).symm
        | false =>
          refine Eq.trans ?_ (untilFailure_cons_of_nil hr _).symm
          exact congrArg (List.cons r) (ih (index + 1) r.results _)
      | cons first others =>
        cases r.cancelled with
        | true => exact (untilFailure_cons_of_cons hr []).symm
        | false => exact (untilFailure_cons_of_cons hr _).symm

theorem rounds_withFailFast (sources : List Source) (s : Session) :
    rounds (p.withFailFast true) sources s = untilFailure (rounds (p.withFailFast false) sources s) :=
  historyFrom_withFailFast p 0 p.stages _ s

theorem runEnd_withFailFast (sources : List Source) {rounds : List Round} (h : mishaps rounds = []) :
    runEnd (p.withFailFast true) sources rounds = runEnd (p.withFailFast false) sources rounds := by
  have goes_on : rounds.findSome? (·.abort? (p.withFailFast true).config) = none := by
    have first : (untilFailure rounds).findSome? (·.abort? (p.withFailFast true).config) =
        (mishaps rounds).head?.map Prod.snd := findSome?_abort?_untilFailure rfl rounds
    rwa [untilFailure_of_none h, h] at first
  have goes_on' : rounds.findSome? (·.abort? (p.withFailFast false).config) = none :=
    List.findSome?_eq_none_iff.2 fun r _ => abort?_of_not_failFast _ rfl _
  rw [runEnd, runEnd, goes_on, goes_on']
  rfl

end WithFailFast

section Results

variable {p : Pipeline} {sources : List Source} {s s' : Session} {result : RecipeRun}

theorem failures_of_run (h : (run p sources).run.run s = (.ok result, s')) {i : Nat} {f : FileResult}
    (hf : result.results[i]? = some f) :
    f.failures = (failureTable p sources s).filterMap fun row => row[i]?.join := by
  rw [(of_run_eq_ok p h).1, List.getElem?_map, Option.map_eq_some_iff] at hf
  obtain ⟨g, hg, rfl⟩ := hf
  rw [failures_conclude]
  exact ((p.follows_rounds sources s).of_start hg).2.2

theorem length_results (h : (run p sources).run.run s = (.ok result, s')) :
    result.results.length = sources.length := by
  have inputs := congrArg List.length (map_before_concluded p sources s)
  rw [(of_run_eq_ok p h).1]
  simpa using inputs

theorem mishaps_eq_nil_iff (h : (run p sources).run.run s = (.ok result, s')) :
    mishaps (rounds p sources s) = [] ↔ ∀ f ∈ result.results, f.failures = [] := by
  constructor
  -- a file's failures are its column of the table, and a round's mishaps are its row
  · intro none_failed f hf
    obtain ⟨i, hi⟩ := List.mem_iff_getElem?.1 hf
    rw [failures_of_run h hi, List.filterMap_eq_nil_iff]
    intro row hrow
    obtain ⟨r, hr, rfl⟩ := List.mem_map.1 hrow
    have unfailed := r.map_fst_mishaps
    rw [List.flatMap_eq_nil_iff.1 none_failed r hr, List.map_nil, eq_comm, List.filterMap_eq_nil_iff] at unfailed
    rw [Round.failed, List.getElem?_map]
    cases ht : r.turns[i]? with
    | none => rfl
    | some t => exact unfailed t (List.mem_of_getElem? ht)
  · intro unfailed
    refine List.flatMap_eq_nil_iff.2 fun r hr => (List.map_eq_nil_iff (f := Prod.fst)).1 ?_
    rw [r.map_fst_mishaps, List.filterMap_eq_nil_iff]
    intro t ht
    obtain ⟨i, hi⟩ := List.mem_iff_getElem?.1 ht
    have bound : i < result.results.length := by
      rw [length_results h, ← length_turns hr]
      exact (List.getElem?_eq_some_iff.1 hi).1
    have column := failures_of_run h (List.getElem?_eq_getElem bound)
    rw [unfailed _ (List.getElem_mem bound), eq_comm, List.filterMap_eq_nil_iff] at column
    have cell := column r.failed (List.mem_map_of_mem hr)
    rw [Round.failed, List.getElem?_map, hi] at cell
    exact cell

theorem flatMap_failureTable (p : Pipeline) (sources : List Source) (s : Session) :
    (failureTable p sources s).flatMap (List.filterMap id) = (mishaps (rounds p sources s)).map Prod.fst := by
  rw [failureTable, List.flatMap_map, mishaps, List.map_flatMap]
  exact List.flatMap_congr fun r _ => r.filterMap_failed

end Results

theorem Quiet.withFailFast {p : Pipeline} (h : Quiet p) (failFast : Bool) : Quiet (p.withFailFast failFast) :=
  ⟨h.visitors, h.progress⟩

theorem Comparable.rounds {p : Pipeline} {s t : Session} (h : p.Comparable s t) (failFast : Bool)
    (sources : List Source) :
    (rounds (p.withFailFast failFast) sources s).map Round.forget =
      (rounds (p.withFailFast failFast) sources t).map Round.forget := by
  obtain rfl | ⟨byFile, agree⟩ := h
  · rfl
  · have byFile' : GoesByFile (p.withFailFast failFast) := ⟨byFile.visitors, byFile.progress⟩
    exact byFile'.rounds sources agree

/-- What a run with `failFast` comes to, by the mishaps of the run without. -/
theorem run_failFast {p : Pipeline} {s t : Session} (h : p.Comparable s t) (sources : List Source) :
    let without := rounds (p.withFailFast false) sources s
    ∃ t₁, ((p.withFailFast true).run sources).run.run t = (match (mishaps without).head? with
        | some (_, e) => .error e
        | none => runEnd (p.withFailFast false) sources without, t₁) ∧
      (rounds (p.withFailFast true) sources t).flatMap (·.told (p.withFailFast true).config) =
        ((mishaps without).map Prod.fst).take 1 ∧
      (Quiet p → t₁.context.failures = t.context.failures ++ ((mishaps without).map Prod.fst).take 1) := by
  intro without
  have same : mishaps (rounds (p.withFailFast false) sources t) = mishaps without := by
    rw [← mishaps_forget, ← h.rounds, mishaps_forget]
  have told : (rounds (p.withFailFast true) sources t).flatMap (·.told (p.withFailFast true).config) =
      ((mishaps without).map Prod.fst).take 1 := by
    rw [rounds_withFailFast, told_untilFailure rfl, same]
  refine ⟨_, (run_eq_rounds _ sources t).trans (Prod.ext ?_ rfl), told, fun quiet => ?_⟩
  · cases hm : (mishaps without).head? with
    | some first =>
      have ends : (untilFailure (rounds (p.withFailFast false) sources t)).findSome?
          (·.abort? (p.withFailFast true).config) = _ :=
        findSome?_abort?_untilFailure rfl (rounds (p.withFailFast false) sources t)
      rw [same, hm] at ends
      change runEnd _ sources (rounds (p.withFailFast true) sources t) = _
      rw [rounds_withFailFast, runEnd, ends]
      rfl
    | none =>
      have none_failed := List.head?_eq_none_iff.1 hm
      change runEnd _ sources (rounds (p.withFailFast true) sources t) = _
      rw [rounds_withFailFast, untilFailure_of_none (same.trans none_failed),
        runEnd_withFailFast p sources (same.trans none_failed), ← runEnd_forget, ← h.rounds, runEnd_forget]
  · have gained := (quiet.withFailFast true).historyFrom 0 (List.Subset.refl _) (sources.map FileResult.start) t
    rw [session_historyFrom] at gained
    exact gained.trans (congrArg _ told)

/-- With `failFast` a run ends with an error exactly if without it some file has a failure: with the error behind the
first one, and the context is told that one alone. Otherwise it comes to the same result. -/
theorem failFast_ends_at_first_failure {p : Pipeline} {s t : Session} (h : p.Comparable s t)
    (sources : List Source) :
    ∃ result s₁, ((p.withFailFast false).run sources).run.run s = (.ok result, s₁) ∧
      (∀ (i : Nat) (f : FileResult), result.results[i]? = some f →
        f.failures = (failureTable (p.withFailFast false) sources s).filterMap fun row => row[i]?.join) ∧
      ((∃ e t₁, ((p.withFailFast true).run sources).run.run t = (.error e, t₁)) ↔
        ∃ f ∈ result.results, f.failures ≠ []) ∧
      (∀ e t₁, ((p.withFailFast true).run sources).run.run t = (.error e, t₁) → ∃ failure,
        ((failureTable (p.withFailFast false) sources s).flatMap (List.filterMap id)).head? = some failure ∧
        (mishaps (rounds (p.withFailFast false) sources s)).head? = some (failure, e) ∧
        (rounds (p.withFailFast true) sources t).flatMap (·.told (p.withFailFast true).config) = [failure] ∧
        (Quiet p → t₁.context.failures = t.context.failures ++ [failure])) ∧
      ((∀ f ∈ result.results, f.failures = []) →
        ∃ t₁, ((p.withFailFast true).run sources).run.run t = (.ok result, t₁)) := by
  obtain ⟨result, s₁, hrun⟩ := run_of_not_failFast (p.withFailFast false) rfl sources s
  obtain ⟨t₁, hrun', told, quiet⟩ := run_failFast h sources
  have unfailed := mishaps_eq_nil_iff hrun
  have ends : runEnd (p.withFailFast false) sources (rounds (p.withFailFast false) sources s) = .ok result :=
    congrArg Prod.fst ((run_eq_rounds _ sources s).symm.trans hrun)
  refine ⟨result, s₁, hrun, fun i f hf => failures_of_run hrun hf, ?_⟩
  cases hm : mishaps (rounds (p.withFailFast false) sources s) with
  | nil =>
    rw [hm, List.head?_nil] at hrun'
    have none_failed := unfailed.1 hm
    refine ⟨iff_of_false ?_ ?_, fun e t₂ he => ?_, fun _ => ⟨t₁, hrun'.trans (by rw [ends])⟩⟩
    · rintro ⟨e, t₂, he⟩
      rw [hrun', ends] at he
      cases he
    · rintro ⟨f, hf, failed⟩
      exact failed (none_failed f hf)
    · rw [hrun', ends] at he
      cases he
  | cons first others =>
    rw [hm, List.head?_cons] at hrun'
    have some_failed : ¬ ∀ f ∈ result.results, f.failures = [] := by
      rw [← unfailed, hm]
      exact List.cons_ne_nil _ _
    refine ⟨iff_of_true ⟨_, t₁, hrun'⟩ (by simpa using some_failed), ?_,
      fun none_failed => absurd none_failed some_failed⟩
    intro e t₂ he
    obtain ⟨rfl, rfl⟩ : first.2 = e ∧ t₁ = t₂ := by
      rw [hrun'] at he
      cases he
      exact ⟨rfl, rfl⟩
    rw [hm] at told quiet
    refine ⟨first.1, ?_, rfl, told, quiet⟩
    rw [flatMap_failureTable, hm]
    rfl

theorem goesByFile_emptyThenRead : GoesByFile emptyThenRead where
  visitors stage hstage v hv source s t hst := by
    obtain rfl | hstage := List.mem_cons.1 hstage
    · obtain rfl := Option.some.inj hv
      exact ⟨rfl, hst⟩
    · obtain rfl := List.mem_singleton.1 hstage
      obtain rfl := Option.some.inj hv
      exact ⟨rfl, hst⟩
  progress _ _ _ hst := hst

/-- The failure of the second file in the first stage comes before that of the first file in the second one. -/
theorem failFast_ends_at_first_failure_emptyThenRead :
    let sources : List Source := [.text ⟨.none, ⟨"a.txt"⟩, [], "a"⟩, .text ⟨.none, ⟨"b.txt"⟩, [], ""⟩]
    Comparable emptyThenRead {} { supply := ⟨7⟩ } ∧ ∃ result s₁ t₁,
      ((emptyThenRead.withFailFast false).run sources).run.run {} = (.ok result, s₁) ∧
      result.results.map (·.failures.length) = [1, 2] ∧
      ((emptyThenRead.withFailFast true).run sources).run.run { supply := ⟨7⟩ } = (.error (.internal "empty"), t₁) ∧
      t₁.context.failures = [Failure.of ⟨"b.txt"⟩ (some "empty") (.internal "empty")] := by
  intro sources
  have h : Comparable emptyThenRead {} { supply := ⟨7⟩ } := .inr ⟨goesByFile_emptyThenRead, rfl⟩
  obtain ⟨result, s₁, hrun, -, -, first, -⟩ := failFast_ends_at_first_failure h sources
  obtain ⟨failure, -, head, -, quiet⟩ := first (.internal "empty") _ rfl
  have counts : result.results.map (·.failures.length) = [1, 2] := by
    cases hrun
    rfl
  obtain rfl : Failure.of ⟨"b.txt"⟩ (some "empty") (.internal "empty") = failure :=
    congrArg Prod.fst (Option.some.inj head)
  exact ⟨h, result, s₁, _, hrun, counts, rfl, quiet quiet_emptyThenRead⟩

end Emend.Pipeline
