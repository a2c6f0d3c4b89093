import Emend.Pipeline.Run
import Emend.Proofs.Outcome

/-! # Recording the outcomes of a stage

What the outcomes of one stage make of the results, of the context and of the run, each as a function of the
outcomes alone. `record_outcomes` says that recording comes to just that.
-/

namespace Emend

def Session.tell (s : Session) (failures : List Failure) : Session :=
  { s with context := failures.foldl Context.report s.context }

namespace Session

variable (s : Session) (fs gs : List Failure)

@[simp] theorem tell_nil : s.tell [] = s := rfl

theorem tell_cons (f : Failure) :
    s.tell (f :: fs) = ({ s with context := s.context.report f } : Session).tell fs := rfl

@[simp] theorem cancelled_tell : (s.tell fs).context.cancelled = s.context.cancelled := by
  induction fs generalizing s with
  | nil => rfl
  | cons f fs ih => rw [tell_cons, ih]; rfl

theorem failures_tell : (s.tell fs).context.failures = s.context.failures ++ fs := by
  induction fs generalizing s with
  | nil => simp
  | cons f fs ih =>
    rw [tell_cons, ih]
    simp [Context.report]

end Session

namespace Outcome

/-- Whether the file was visited, to an end other than a cancelled one. -/
def isVisit : Outcome → Bool
  | unchanged | changed _ | failed _ => true
  | skipped | cancelled => false

def isCancelled : Outcome → Bool
  | cancelled => true
  | _ => false

theorem isCancelled_of_isVisit {o : Outcome} (h : o.isVisit = true) : o.isCancelled = false := by
  cases o <;> first | rfl | cases h

def error? : Outcome → Option Error
  | failed e => some e
  | _ => none

end Outcome

namespace FileResult

def start (s : Source) : FileResult := { before := s, after := s }

def amend (recipe : String) (r : FileResult) : Outcome → FileResult
  | .changed after => { r with after, applied := r.applied ++ [recipe] }
  | .failed e => { r with failures := r.failures ++ [Failure.of r.before.path (some recipe) e] }
  | .skipped | .unchanged | .cancelled => r

def failure? (recipe : String) (r : FileResult) (o : Outcome) : Option Failure :=
  o.error?.map (Failure.of r.before.path (some recipe))

@[simp] theorem before_amend (recipe : String) (r : FileResult) (o : Outcome) :
    (r.amend recipe o).before = r.before := by
  cases o <;> rfl

theorem failures_amend (recipe : String) (r : FileResult) (o : Outcome) :
    (r.amend recipe o).failures = r.failures ++ (r.failure? recipe o).toList := by
  cases o <;> simp [amend, failure?, Outcome.error?]

end FileResult

namespace Pipeline

variable (config : PipelineConfig) (stage : Stage)

def abort? (outcomes : List Outcome) : Option Error :=
  if config.failFast then (outcomes.filterMap Outcome.error?).head? else none

/-- The failures the context is told: with `failFast` none after the first. -/
def told (entries : List (FileResult × Outcome)) : List Failure :=
  let failures := entries.filterMap fun (r, o) => r.failure? stage.name o
  if config.failFast then failures.take 1 else failures

/-- What a stage leaves of the files with their outcomes, or the error that ended the run. -/
def stageEnd (entries : List (FileResult × Outcome)) : Except Error StageEnd :=
  match abort? config (entries.map Prod.snd) with
  | some e => .error e
  | none => .ok {
      results := entries.map fun (r, o) => r.amend stage.name o
      visits := entries.countP (·.2.isVisit)
      cancelled := entries.any (·.2.isCancelled) }

theorem abort?_cons_failed (e : Error) (os : List Outcome) :
    abort? config (.failed e :: os) = if config.failFast then some e else abort? config os := by
  unfold abort?
  split <;> rfl

theorem abort?_cons {o : Outcome} (h : o.error? = none) (os : List Outcome) :
    abort? config (o :: os) = abort? config os := by
  simp only [abort?, List.filterMap_cons, h]

theorem abort?_of_not_failFast (h : config.failFast = false) (os : List Outcome) : abort? config os = none := by
  rw [abort?, h]
  rfl

theorem mem_of_abort? {os : List Outcome} {e : Error} (h : abort? config os = some e) :
    config.failFast = true ∧ .failed e ∈ os := by
  unfold abort? at h
  split at h
  · next hf =>
    obtain ⟨o, ho, he⟩ := List.mem_filterMap.1 (List.mem_of_head? h)
    cases o <;> simp_all [Outcome.error?]
  · cases h

theorem told_cons_failed (r : FileResult) (e : Error) (entries : List (FileResult × Outcome)) :
    told config stage ((r, .failed e) :: entries) = Failure.of r.before.path (some stage.name) e ::
      if config.failFast then [] else told config stage entries := by
  unfold told
  split <;> simp [FileResult.failure?, Outcome.error?]

theorem told_cons {r : FileResult} {o : Outcome} (h : o.error? = none)
    (entries : List (FileResult × Outcome)) :
    told config stage ((r, o) :: entries) = told config stage entries := by
  simp only [told, List.filterMap_cons, FileResult.failure?, h, Option.map_none]

theorem stageEnd_cons {r : FileResult} {o : Outcome} (h : o.error? = none)
    (entries : List (FileResult × Outcome)) :
    stageEnd config stage ((r, o) :: entries) = (stageEnd config stage entries).map fun e =>
      { results := r.amend stage.name o :: e.results
        visits := if o.isVisit then e.visits + 1 else e.visits
        cancelled := o.isCancelled || e.cancelled } := by
  simp only [stageEnd, List.map_cons, abort?_cons config h]
  split
  · rfl
  · simp only [Except.map, List.countP_cons, List.any_cons]
    split <;> rfl

theorem stageEnd_cons_failed (r : FileResult) (e : Error) (entries : List (FileResult × Outcome)) :
    stageEnd config stage ((r, .failed e) :: entries) =
      if config.failFast then .error e else (stageEnd config stage entries).map fun end' =>
        { end' with results := r.amend stage.name (.failed e) :: end'.results, visits := end'.visits + 1 } := by
  simp only [stageEnd, List.map_cons, abort?_cons_failed]
  by_cases hf : config.failFast
  · simp only [hf, if_true]
  · simp only [hf, if_false, Bool.false_eq_true]
    split <;> simp [Except.map, Outcome.isVisit, Outcome.isCancelled]

/-- Recording the outcomes tells the context the failures and comes to the stage's end. -/
theorem record_outcomes (entries : List (FileResult × Outcome)) (s : Session) :
    (record config stage (entries.map Prod.fst) (entries.map Prod.snd)).run.run s =
      (stageEnd config stage entries, s.tell (told config stage entries)) := by
  induction entries generalizing s with
  | nil => simp [record, stageEnd, abort?, told]; rfl
  | cons entry entries ih =>
    obtain ⟨r, o⟩ := entry
    cases o with
    | failed e =>
      rw [stageEnd_cons_failed, told_cons_failed, Session.tell_cons]
      by_cases hf : config.failFast
      · simp only [List.map_cons, record, hf, if_true, Session.tell_nil]
        rfl
      · simp only [List.map_cons, record, hf, if_false, Bool.false_eq_true]
        exact run_map_of_run (ih _)
    | _ =>
      rw [stageEnd_cons config stage rfl, told_cons config stage rfl]
      exact run_map_of_run (ih s)

end Pipeline
end Emend
