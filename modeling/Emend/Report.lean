import Emend.Json.Access
import Emend.Pipeline.Run

/-! # Reports

Outcomes as JSON values.
-/

namespace Emend

def ErrorKind.name : ErrorKind → String
  | parse => "Parse"
  | visitor => "Visitor"
  | consistency => "Consistency"
  | serialization => "Serialization"
  | config => "Config"
  | io => "Io"
  | cancelled => "Cancelled"
  | internal => "Internal"

def Failure.report (f : Failure) : Json := .object [
  ("path", .string f.path.text), ("recipe", .ofOption f.recipe), ("message", .string f.message),
  ("recoverable", .bool f.recoverable)]

def Failure.reportAll (fs : List Failure) : Json := .array (fs.map report)

def Failure.sort (fs : List Failure) : List Failure :=
  fs.mergeSort fun a b =>
    a.path.text < b.path.text || (a.path.text == b.path.text && decide (a.message ≤ b.message))

def PipelineConfig.report (c : PipelineConfig) : Json := .object [
  ("parallel", .bool c.parallel), ("failFast", .bool c.failFast), ("threads", .orNull .nat c.threads),
  ("checkIdempotence", .bool c.checkIdempotence)]

def Progress.report (p : Progress) : Json := .array [
  .nat p.stage, .nat p.stages, .string p.recipe, .nat p.files, .nat p.completed, .string p.current.text,
  .string p.completion]

/-- `kept` says that the file is the very one that was given. -/
def FileResult.report (r : FileResult) : Json := .object [
  ("path", .string r.before.path.text), ("changed", .bool r.changed), ("applied", .ofStrings r.applied),
  ("failures", Failure.reportAll r.failures), ("print", .string r.after.print), ("diff", .string r.diff),
  ("kept", .bool !r.changed)]

def RunStats.report (s : RunStats) : Json := .object [
  ("files", .nat s.files), ("stages", .nat s.stages), ("stagesCompleted", .nat s.stagesCompleted),
  ("visits", .nat s.visits), ("changedFiles", .nat s.changedFiles), ("failedFiles", .nat s.failedFiles)]

namespace RecipeRun

def changed (r : RecipeRun) : List FileResult := r.results.filter (·.changed)

def failures (r : RecipeRun) : List Failure := r.results.flatMap (·.failures)

def sources (r : RecipeRun) : List Source := r.results.map (·.after)

def report (r : RecipeRun) (files : List Json) : Json := .object [
  ("results", .array files), ("cancelled", .bool r.cancelled),
  ("changed", .ofStrings (r.changed.map (·.before.path.text))), ("failureCount", .nat r.failures.length),
  ("sources", .nat r.sources.length), ("stats", r.stats.report)]

end RecipeRun

def Coordinates.report (c : Coordinates) : Json := .object [
  ("groupId", .ofOption c.groupId), ("artifactId", .string c.artifactId), ("version", .ofOption c.version)]

def Dependency.report (d : Dependency) : Json := .object [
  ("gav", d.coordinates.report), ("scope", .ofOption d.scope), ("kind", .ofOption d.type),
  ("optional", .bool d.isOptional)]

def Pom.report (p : Pom) : Json := .object [
  ("gav", p.coordinates.report), ("parent", .orNull Coordinates.report p.parent),
  ("packaging", .ofOption p.packaging),
  ("properties", .array (p.properties.map fun (k, v) => .ofStrings [k, v])),
  ("dependencies", .array (p.dependencies.map Dependency.report)),
  ("managedDependencies", .array (p.managedDependencies.map Dependency.report))]

end Emend
