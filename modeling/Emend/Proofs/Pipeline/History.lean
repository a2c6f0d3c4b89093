import Emend.Proofs.Pipeline.Encounter
import Emend.Proofs.Pipeline.Schedules
import Mathlib.Algebra.GroupWithZero.Nat

/-! # The history of a run

A run that also keeps, round by round, how each file met the stage. Keeping that changes nothing, and the rounds
alone say what the run comes to (`run_eq_rounds`). `Follows` is the order in which rounds can come.
-/

namespace Emend.Pipeline

/-- A file's turn in a stage: its result so far, and how it met the stage. -/
structure Turn where
  file : FileResult
  encounter : Encounter

/-- One stage over all files. The session is the one after the last file was met, with nothing recorded yet. -/
structure Round where
  stage : Stage
  turns : List Turn
  session : Session

namespace Round

variable (r : Round) (config : PipelineConfig)

def outcome (t : Turn) : Outcome := t.encounter.outcome r.stage.name t.file.after

def amended (t : Turn) : FileResult := t.file.amend r.stage.name (r.outcome t)

def failure? (t : Turn) : Option Failure := t.file.failure? r.stage.name (r.outcome t)

def entries : List (FileResult × Outcome) := r.turns.map fun t => (t.file, r.outcome t)

def files : List FileResult := r.turns.map Turn.file

def results : List FileResult := r.turns.map r.amended

def visits : Nat := r.turns.countP fun t => (r.outcome t).isVisit

def cancelled : Bool := r.turns.any fun t => (r.outcome t).isCancelled

def abort? : Option Error := Pipeline.abort? config (r.turns.map r.outcome)

/-- The failures the context was told. -/
def told : List Failure := Pipeline.told config r.stage r.entries

def closed : Session := r.session.tell (r.told config)

/-- The context is told failures of the files' turns, in their order, and nothing else. -/
theorem told_isPrefix : r.told config <+: r.turns.filterMap r.failure? := by
  unfold told Pipeline.told
  rw [Round.entries, List.filterMap_map]
  split
  · exact List.take_prefix _ _
  · exact List.prefix_rfl

def goesOn : Bool := (r.abort? config).isNone && !r.cancelled

theorem goesOn_iff : r.goesOn config = true ↔ r.abort? config = none ∧ r.cancelled = false := by
  simp [goesOn]

theorem map_before_results : r.results.map FileResult.before = r.files.map FileResult.before := by
  simp only [results, files, List.map_map]
  exact List.map_congr_left fun t _ => t.file.before_amend r.stage.name (r.outcome t)

theorem stageEnd_entries :
    stageEnd config r.stage r.entries = match r.abort? config with
      | some e => .error e
      | none => .ok { results := r.results, visits := r.visits, cancelled := r.cancelled } := by
  simp only [stageEnd, entries, List.map_map, List.countP_map, List.any_map]
  rfl

end Round

section Recorded

variable (p : Pipeline)

def meetEach (index : Nat) (stage : Stage) (files : Nat) : Nat → List FileResult → StateM Session (List Turn)
  | _, [] => return []
  | done, r :: rs => do
    let met ← encounter p.config stage r.after
    p.progress {
      stage := index, stages := p.stages.length, recipe := stage.name, files, completed := done + 1,
      current := r.before.path }
    return ⟨r, met⟩ :: (← meetEach index stage files (done + 1) rs)

/-- The order in which a stage takes up what it has for all files. -/
def arrange {α : Type} (index : Nat) (as : List α) : List α :=
  if p.config.parallel then (p.schedule index).arrange as else as

def restore {α : Type} (index n : Nat) (as : List α) : List α :=
  if p.config.parallel then (p.schedule index).restore n as else as

/-- The turns of all files in one stage, in the order of the files. -/
def meetAll (index : Nat) (stage : Stage) (files : List FileResult) : StateM Session (List Turn) :=
  p.restore index files.length <$> meetEach p index stage files.length 0 (p.arrange index files)

def historyFrom : Nat → List Stage → List FileResult → StateM Session (List Round)
  | _, [], _ => return []
  | index, stage :: stages, files => do
    if (← get).context.cancelled then return []
    let turns ← meetAll p index stage files
    let round : Round := ⟨stage, turns, ← get⟩
    set (round.closed p.config)
    if round.goesOn p.config then return round :: (← historyFrom (index + 1) stages round.results)
    else return [round]

def rounds (sources : List Source) (s : Session) : List Round :=
  ((historyFrom p 0 p.stages (sources.map FileResult.start)).run s).1

end Recorded

/-- What the results have become when all rounds are over. -/
def resultsAfter (files : List FileResult) : List Round → List FileResult
  | [] => files
  | r :: rs => resultsAfter r.results rs

/-- The rounds that were not cut short. -/
def completed (rounds : List Round) : Nat := rounds.countP (!·.cancelled)

/-- The session when all rounds are over. -/
def sessionAfter (config : PipelineConfig) (s : Session) : List Round → Session
  | [] => s
  | r :: rs => sessionAfter config (r.closed config) rs

def stagesEnd (config : PipelineConfig) (stages : List Stage) (files : List FileResult) (rounds : List Round) :
    Except Error (List FileResult × Nat × Nat × Bool) :=
  match rounds.findSome? (·.abort? config) with
  | some e => .error e
  | none => .ok (resultsAfter files rounds, completed rounds, (rounds.map Round.visits).sum,
      decide (completed rounds < stages.length))

/-- What a run comes to, by its rounds. -/
def runEnd (p : Pipeline) (sources : List Source) (rounds : List Round) : Except Error RecipeRun :=
  match rounds.findSome? (·.abort? p.config) with
  | some e => .error e
  | none =>
    let results := (resultsAfter (sources.map FileResult.start) rounds).map conclude
    .ok {
      results
      stats := {
        files := sources.length
        stages := p.stages.length
        stagesCompleted := completed rounds
        visits := (rounds.map Round.visits).sum
        changedFiles := results.countP (·.changed)
        failedFiles := results.countP (!·.failures.isEmpty) }
      cancelled := decide (completed rounds < p.stages.length) }

section Equations

variable (p : Pipeline)

theorem restore_arrange {α : Type} (index : Nat) (as : List α) :
    p.restore index as.length (p.arrange index as) = as := by
  unfold restore arrange
  split
  · exact (p.schedule index).restore_arrange as
  · rfl

theorem restore_map {α β : Type} (f : α → β) (index n : Nat) (as : List α) :
    p.restore index n (as.map f) = (p.restore index n as).map f := by
  unfold restore
  split
  · exact (p.schedule index).restore_map f n as
  · rfl

theorem length_arrange {α : Type} (index : Nat) (as : List α) : (p.arrange index as).length = as.length := by
  unfold arrange
  split
  · exact (p.schedule index).length_arrange as
  · rfl

theorem length_restore {α : Type} (index : Nat) {n : Nat} {as : List α} (h : as.length = n) :
    (p.restore index n as).length = n := by
  unfold restore
  split
  · exact (p.schedule index).length_restore h
  · exact h

theorem mem_of_mem_restore {α : Type} {index n : Nat} {as : List α} {a : α} (h : a ∈ p.restore index n as) :
    a ∈ as := by
  unfold restore at h
  split at h
  · exact (p.schedule index).mem_of_mem_restore h
  · exact h

theorem visitAll_eq (index : Nat) (stage : Stage) (rs : List FileResult) :
    visitAll p index stage rs =
      p.restore index rs.length <$> visitEach p index stage rs.length 0 (p.arrange index rs) := by
  unfold visitAll restore arrange
  split
  · rfl
  · exact (id_map _).symm

theorem visitEach_eq_meetEach (index : Nat) (stage : Stage) (files done : Nat) (rs : List FileResult) :
    visitEach p index stage files done rs =
      List.map (fun t => t.encounter.outcome stage.name t.file.after) <$> meetEach p index stage files done rs := by
  induction rs generalizing done with
  | nil => rfl
  | cons r rs ih =>
    simp only [visitEach, meetEach, visitFile_eq_encounter, ih, map_bind, bind_map_left, map_pure, List.map_cons]

theorem visitAll_eq_meetAll (index : Nat) (stage : Stage) (rs : List FileResult) :
    visitAll p index stage rs =
      List.map (fun t => t.encounter.outcome stage.name t.file.after) <$> meetAll p index stage rs := by
  rw [visitAll_eq, visitEach_eq_meetEach, meetAll, Functor.map_map, Functor.map_map]
  simp only [restore_map]

theorem files_meetEach (index : Nat) (stage : Stage) (files done : Nat) (rs : List FileResult) (s : Session) :
    ((meetEach p index stage files done rs).run s).1.map Turn.file = rs := by
  induction rs generalizing done s with
  | nil => rfl
  | cons r rs ih => exact congrArg (List.cons r) (ih (done + 1) _)

theorem files_meetAll (index : Nat) (stage : Stage) (files : List FileResult) (s : Session) :
    ((meetAll p index stage files).run s).1.map Turn.file = files := by
  rw [meetAll, StateT.run_map]
  exact (p.restore_map Turn.file index files.length _).symm.trans
    ((congrArg _ (files_meetEach p index stage files.length 0 _ s)).trans (p.restore_arrange index files))

theorem meetAll_of_sequential (h : p.config.parallel = false) (index : Nat) (stage : Stage) (files : List FileResult) :
    meetAll p index stage files = meetEach p index stage files.length 0 files := by
  have order : p.arrange index files = files := by simp [arrange, h]
  have back : p.restore (α := Turn) index files.length = id := by
    funext turns
    simp [restore, h]
  rw [meetAll, order, back]
  exact id_map _

theorem record_round (r : Round) (config : PipelineConfig) :
    (record config r.stage r.files (r.turns.map r.outcome)).run.run r.session =
      (stageEnd config r.stage r.entries, r.closed config) := by
  have h := record_outcomes config r.stage r.entries r.session
  simp only [Round.entries, List.map_map] at h
  exact h

theorem exists_round (index : Nat) (stage : Stage) (files : List FileResult) (s : Session) :
    ∃ r : Round, r.stage = stage ∧ r.files = files ∧
      (meetAll p index stage files).run s = (r.turns, r.session) := by
  refine ⟨⟨stage, _, _⟩, rfl, files_meetAll p index stage files s, rfl⟩

theorem run_historyFrom_of_cancelled (index : Nat) (stage : Stage) (stages : List Stage) (files : List FileResult)
    {s : Session} (h : s.context.cancelled = true) :
    (historyFrom p index (stage :: stages) files).run s = ([], s) := by
  simp only [historyFrom, StateT.run_bind, StateT.run_get, pure_bind, h, if_true]
  rfl

theorem run_historyFrom_of_round (index : Nat) (stages : List Stage) {r : Round} {s : Session}
    (h : s.context.cancelled = false)
    (met : (meetAll p index r.stage r.files).run s = (r.turns, r.session)) :
    (historyFrom p index (r.stage :: stages) r.files).run s =
      if r.goesOn p.config then
        Prod.map (r :: ·) id ((historyFrom p (index + 1) stages r.results).run (r.closed p.config))
      else ([r], r.closed p.config) := by
  simp only [historyFrom, StateT.run_bind, StateT.run_get, pure_bind, h, Bool.false_eq_true, if_false, met]
  by_cases hg : r.goesOn p.config = true
  · simp only [bind, hg, if_true]
    rfl
  · simp only [bind, hg]
    rfl

theorem stagesEnd_cons (config : PipelineConfig) {r : Round} (h : r.goesOn config = true) (stages : List Stage)
    (files : List FileResult) (rounds : List Round) :
    stagesEnd config (r.stage :: stages) files (r :: rounds) =
      (stagesEnd config stages r.results rounds).map fun (results, completed, visits, cancelled) =>
        (results, completed + 1, r.visits + visits, cancelled) := by
  obtain ⟨ha, hc⟩ := (r.goesOn_iff config).1 h
  simp only [stagesEnd, List.findSome?_cons, ha]
  cases rounds.findSome? (·.abort? config) with
  | some e => rfl
  | none =>
    have hcount : completed (r :: rounds) = completed rounds + 1 := by simp [completed, hc]
    simp only [Except.map, resultsAfter, List.map_cons, List.sum_cons, hcount, List.length_cons,
      Nat.add_lt_add_iff_right]

theorem runStages_eq_historyFrom (index : Nat) (stages : List Stage) (files : List FileResult) (s : Session) :
    (runStages p index stages files).run.run s =
      Prod.map (stagesEnd p.config stages files) id ((historyFrom p index stages files).run s) := by
  induction stages generalizing index files s with
  | nil => rfl
  | cons stage stages ih =>
    simp only [runStages, run_get_bind]
    cases h : s.context.cancelled with
    | true =>
      -- no round begins, and with a stage left the run counts as cancelled
      rw [run_historyFrom_of_cancelled p index stage stages files h]
      simp [stagesEnd, resultsAfter, completed]
      rfl
    | false =>
      obtain ⟨r, rfl, rfl, met⟩ := exists_round p index stage files s
      have recorded := record_round r p.config
      rw [Round.stageEnd_entries] at recorded
      rw [run_historyFrom_of_round p index stages h met]
      simp only [Bool.false_eq_true, if_false, run_liftM_bind, visitAll_eq_meetAll, StateT.run_map, met]
      cases ha : r.abort? p.config with
      | some e =>
        rw [ha] at recorded
        refine (run_bind_of_error recorded).trans ?_
        simp [Round.goesOn, ha, stagesEnd]
      | none =>
        rw [ha] at recorded
        refine (run_bind_of_ok recorded).trans ?_
        cases hc : r.cancelled with
        | true =>
          simp [Round.goesOn, ha, hc, stagesEnd, resultsAfter, completed]
          rfl
        | false =>
          have hg : r.goesOn p.config = true := (r.goesOn_iff p.config).2 ⟨ha, hc⟩
          -- named, so that the induction hypothesis can be rewritten with it
          obtain ⟨⟨rounds, s'⟩, rest⟩ :
            ∃ x, (historyFrom p (index + 1) stages r.results).run (r.closed p.config) = x := ⟨_, rfl⟩
          have next := ih (index + 1) r.results (r.closed p.config)
          rw [rest] at next
          rw [if_pos hg, rest]
          simp only [Prod.map, id, stagesEnd_cons p.config hg]
          exact run_map_of_run next

theorem session_historyFrom (index : Nat) (stages : List Stage) (files : List FileResult) (s : Session) :
    ((historyFrom p index stages files).run s).2 =
      sessionAfter p.config s ((historyFrom p index stages files).run s).1 := by
  induction stages generalizing index files s with
  | nil => rfl
  | cons stage stages ih =>
    cases h : s.context.cancelled with
    | true =>
      rw [run_historyFrom_of_cancelled p index stage stages files h]
      rfl
    | false =>
      obtain ⟨r, rfl, rfl, met⟩ := exists_round p index stage files s
      rw [run_historyFrom_of_round p index stages h met]
      cases hg : r.goesOn p.config with
      | true => exact ih (index + 1) r.results (r.closed p.config)
      | false => rfl

/-- Keeping the history changes nothing, and the rounds say what the run comes to. -/
theorem run_eq_rounds (sources : List Source) (s : Session) :
    (run p sources).run.run s =
      (runEnd p sources (rounds p sources s), sessionAfter p.config s (rounds p sources s)) := by
  have stages := runStages_eq_historyFrom p 0 p.stages (sources.map FileResult.start) s
  have session := session_historyFrom p 0 p.stages (sources.map FileResult.start) s
  refine (run_map_of_run stages).trans (Prod.ext ?_ session)
  change Except.map _ (stagesEnd p.config p.stages (sources.map FileResult.start) (rounds p sources s)) = _
  simp only [stagesEnd, runEnd]
  cases (rounds p sources s).findSome? (·.abort? p.config) <;> rfl

theorem run_of_not_failFast (h : p.config.failFast = false) (sources : List Source) (s : Session) :
    ∃ result s', (run p sources).run.run s = (.ok result, s') := by
  have none_aborts : (rounds p sources s).findSome? (·.abort? p.config) = none :=
    List.findSome?_eq_none_iff.2 fun r _ => abort?_of_not_failFast p.config h _
  rw [run_eq_rounds, runEnd, none_aborts]
  exact ⟨_, _, rfl⟩

theorem of_run_eq_ok {sources : List Source} {s s' : Session} {result : RecipeRun}
    (h : (run p sources).run.run s = (.ok result, s')) :
    result.results = (resultsAfter (sources.map FileResult.start) (rounds p sources s)).map conclude ∧
      result.stats.visits = ((rounds p sources s).map Round.visits).sum ∧
      result.cancelled = decide (completed (rounds p sources s) < p.stages.length) := by
  rw [run_eq_rounds, runEnd] at h
  cases ha : (rounds p sources s).findSome? (·.abort? p.config) with
  | some e =>
    rw [ha] at h
    cases h
  | none =>
    rw [ha] at h
    cases h
    exact ⟨rfl, rfl, rfl⟩

end Equations

end Emend.Pipeline
