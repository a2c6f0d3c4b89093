import Emend.LineDiff.Unified
import Emend.Pipeline.Schedule
import Emend.Pipeline.Stages

/-! # Running stages over files

Every stage goes over all files before the next one starts. Visits do not overlap; in parallel they come in any order.
A failure concerns one file, which keeps the tree it had before the stage; a request to stop ends the run after the
files at hand.
-/

namespace Emend

/-- `threads` is for those who make the schedule. -/
structure PipelineConfig where
  parallel : Bool := true
  failFast : Bool := false
  threads : Option Nat := none
  checkIdempotence : Bool := false
deriving DecidableEq

structure Progress where
  stage : Nat
  stages : Nat
  recipe : String
  files : Nat
  completed : Nat
  current : FilePath

/-- The completed part of the stage in millionths, rounded to nearest with ties to even; a stage over no files
is complete. -/
def Progress.millionths (p : Progress) : Nat :=
  if p.files = 0 then 1000000
  else
    let q := p.completed * 1000000 / p.files
    let r := p.completed * 1000000 % p.files
    if p.files < 2 * r ∨ p.files = 2 * r ∧ q % 2 = 1 then q + 1 else q

def Progress.completion (p : Progress) : String :=
  let digits := toString (p.millionths % 1000000)
  s!"{p.millionths / 1000000}." ++ String.ofList (List.replicate (6 - digits.length) '0') ++ digits

/-- `recipes` is the forest that `stages` was made from. Each stage has a schedule, for visits in parallel. -/
structure Pipeline where
  recipes : List Recipe
  stages : List Stage
  config : PipelineConfig := {}
  schedule : Nat → Schedule := fun _ => .inOrder
  progress : Progress → StateM Session Unit := fun _ => pure ()

inductive Outcome where
  | skipped
  | unchanged
  | changed (after : Source)
  | failed (e : Error)
  | cancelled

structure FileResult where
  before : Source
  after : Source
  changed : Bool := false
  applied : List String := []
  failures : List Failure := []

def FileResult.diff (r : FileResult) : String :=
  if r.changed then LineDiff.unified r.before.path.text r.before.print r.after.print else ""

structure RunStats where
  files : Nat
  stages : Nat
  stagesCompleted : Nat := 0
  visits : Nat := 0
  changedFiles : Nat := 0
  failedFiles : Nat := 0
deriving DecidableEq

/-- One result a file, in the order given. -/
structure RecipeRun where
  results : List FileResult
  stats : RunStats
  cancelled : Bool

namespace Pipeline

def build (recipes : List Recipe) (config : PipelineConfig) : Except Error Pipeline :=
  match (Stage.layOutAll recipes).run {} with
  | .ok ((), { stages, .. }) => .ok { recipes, stages, config }
  | .error f => .error (.config f.message)

/-- Kind and path stay what they were when the file was read. -/
def checkConsistent (before after : Source) : Except Error Unit :=
  if after.kind ≠ before.kind then
    .error (.consistency before.path
      s!"Source kind changed from '{before.kind.display}' to '{after.kind.display}'")
  else if !after.path.same before.path then
    .error (.consistency before.path s!"Source path changed to '{after.path.text}'")
  else .ok ()

/-- A visit whose crash is an error of the recipe. -/
def guarded (recipe : String) (path : FilePath) (x : Visiting (Visit Source)) :
    StateM Session (Except Error (Visit Source)) := do
  match ← x.run with
  | .ok v => return .ok v
  | .error (.error e) => return .error e
  | .error (.crash (some m)) => return .error (.visitor recipe path s!"Visitor panicked: {m}")
  | .error (.crash none) => return .error (.visitor recipe path "Visitor panicked")

def checkIdempotent (recipe : String) (v : SourceVisitor) (after : Source) :
    StateM Session (Except Error Unit) := do
  match ← guarded recipe after.path (v.visit after) with
  | .error e => return .error e
  | .ok .unchanged => return .ok ()
  | .ok (.changed again) =>
    if SameAs.same again after then return .ok ()
    else return .error (.consistency after.path s!"Recipe '{recipe}' changed the file again on a second pass")

def visitFile (config : PipelineConfig) (stage : Stage) (source : Source) : StateM Session Outcome := do
  if (← get).context.cancelled then return .cancelled
  match stage.visitor with
  | none => return .skipped
  | some v =>
    if !v.accepts source then return .skipped
    match ← guarded stage.name source.path (v.visit source) with
    | .error .cancelled => return .cancelled
    | .error e => return .failed e
    | .ok .unchanged => return .unchanged
    | .ok (.changed after) =>
      if SameAs.same after source then return .unchanged
      match checkConsistent source after with
      | .error e => return .failed e
      | .ok () =>
        if config.checkIdempotence then
          match ← checkIdempotent stage.name v after with
          | .error e => return .failed e
          | .ok () => return .changed after
        else return .changed after

/-- These files in one stage, one after the other; `done` have been visited before. -/
def visitEach (p : Pipeline) (index : Nat) (stage : Stage) (files : Nat) :
    Nat → List FileResult → StateM Session (List Outcome)
  | _, [] => return []
  | done, r :: rs => do
    let outcome ← visitFile p.config stage r.after
    p.progress {
      stage := index, stages := p.stages.length, recipe := stage.name, files, completed := done + 1,
      current := r.before.path }
    return outcome :: (← visitEach p index stage files (done + 1) rs)

/-- All files in one stage. Their outcomes come in the order of the files. -/
def visitAll (p : Pipeline) (index : Nat) (stage : Stage) (rs : List FileResult) : StateM Session (List Outcome) :=
  if p.config.parallel then do
    let σ := p.schedule index
    return σ.restore rs.length (← visitEach p index stage rs.length 0 (σ.arrange rs))
  else visitEach p index stage rs.length 0 rs

/-- What a stage leaves: the results, how many files were visited, whether a visit was cancelled. -/
structure StageEnd where
  results : List FileResult
  visits : Nat
  cancelled : Bool

/-- Records the outcomes in order; with `failFast` the first failure ends the run. -/
def record (config : PipelineConfig) (stage : Stage) :
    List FileResult → List Outcome → ExceptT Error (StateM Session) StageEnd
  | r :: rs, o :: os => do
    match o with
    | .skipped =>
      let e ← record config stage rs os
      return { e with results := r :: e.results }
    | .unchanged =>
      let e ← record config stage rs os
      return { e with results := r :: e.results, visits := e.visits + 1 }
    | .changed after =>
      let e ← record config stage rs os
      return { e with
        results := { r with after, applied := r.applied ++ [stage.name] } :: e.results
        visits := e.visits + 1 }
    | .failed error =>
      let failure := Failure.of r.before.path (some stage.name) error
      modify fun s => { s with context := s.context.report failure }
      if config.failFast then throw error
      let e ← record config stage rs os
      return { e with
        results := { r with failures := r.failures ++ [failure] } :: e.results
        visits := e.visits + 1 }
    | .cancelled =>
      let e ← record config stage rs os
      return { e with results := r :: e.results, cancelled := true }
  | rs, _ => return { results := rs, visits := 0, cancelled := false }

/-- The stages from `index` on. The result says how many were completed, and whether the run was stopped. -/
def runStages (p : Pipeline) :
    Nat → List Stage → List FileResult → ExceptT Error (StateM Session) (List FileResult × Nat × Nat × Bool)
  | _, [], results => return (results, 0, 0, false)
  | index, stage :: stages, results => do
    if (← get).context.cancelled then return (results, 0, 0, true)
    let outcomes ← visitAll p index stage results
    let e ← record p.config stage results outcomes
    if e.cancelled then return (e.results, 0, e.visits, true)
    let (results, completed, visits, cancelled) ← runStages p (index + 1) stages e.results
    return (results, completed + 1, e.visits + visits, cancelled)

/-- A file that ends as it began is unchanged. -/
def conclude (r : FileResult) : FileResult :=
  if SameAs.same r.after r.before then { r with after := r.before } else { r with changed := true }

def run (p : Pipeline) (sources : List Source) : ExceptT Error (StateM Session) RecipeRun := do
  let start := sources.map fun s => ({ before := s, after := s } : FileResult)
  let (results, stagesCompleted, visits, cancelled) ← runStages p 0 p.stages start
  let results := results.map conclude
  return {
    results
    stats := {
      files := sources.length
      stages := p.stages.length
      stagesCompleted
      visits
      changedFiles := results.countP (·.changed)
      failedFiles := results.countP (!·.failures.isEmpty) }
    cancelled }

end Pipeline
end Emend
