import Emend.Parsing
import Emend.Pipeline.Run
import Emend.Text.Literal

/-! # Texts for inspection

How values show themselves in diagnostics: the name of the structure and its fields, texts between quotes.
-/

namespace Emend

def libraryName : String := "remold-core"

def libraryVersion : String := "0.1.0"

namespace Inspect

def bool (b : Bool) : String := if b then "true" else "false"

def list (items : List String) : String := "[" ++ ", ".intercalate items ++ "]"

def option : Option String → String
  | none => "None"
  | some s => "Some(" ++ s ++ ")"

def record (name : String) (fields : List (String × String)) : String :=
  name ++ " \x7b " ++ ", ".intercalate (fields.map fun (k, v) => k ++ ": " ++ v) ++ " \x7d"

def path (p : FilePath) : String :=
  String.ofList ('"' :: p.text.toList.flatMap char ++ ['"'])
where
  char (c : Char) : List Char := if c = '\x27' then ['\\', c] else Text.literalChar c

end Inspect

def Failure.inspect (f : Failure) : String :=
  Inspect.record "Failure" [
    ("path", Inspect.path f.path), ("recipe", Inspect.option (f.recipe.map Text.literal)),
    ("message", Text.literal f.message), ("recoverable", Inspect.bool f.recoverable)]

def Context.inspect (c : Context) : String :=
  Inspect.record "ExecutionContext" [
    ("failures", Inspect.list (c.failures.map Failure.inspect)), ("cancelled", Inspect.bool c.cancelled),
    ("cache_entries", toString c.cache.size)]

mutual

def Recipe.inspect : Recipe → String
  | ⟨name, _, _, _, next⟩ =>
    Inspect.record "Recipe" [("name", Text.literal name), ("next", Inspect.list (Recipe.inspectAll next))]

def Recipe.inspectAll : List Recipe → List String
  | [] => []
  | r :: rs => r.inspect :: Recipe.inspectAll rs

end

def Recipe.inspectWhole (r : Recipe) : String :=
  Inspect.record "CompositeRecipe" [
    ("name", Text.literal r.name), ("has_visitor", Inspect.bool r.visitor.isSome),
    ("next", Inspect.list (Recipe.inspectAll r.next))]

def Parser.inspectAll (parsers : List Parser) : String :=
  Inspect.list (parsers.map fun p => Text.literal p.name)

def PipelineConfig.inspect (c : PipelineConfig) : String :=
  Inspect.record "PipelineConfig" [
    ("parallel", Inspect.bool c.parallel), ("fail_fast", Inspect.bool c.failFast),
    ("threads", Inspect.option (c.threads.map toString)),
    ("check_idempotence", Inspect.bool c.checkIdempotence)]

def Pipeline.inspect (p : Pipeline) : String :=
  Inspect.record "Pipeline" [
    ("stages", Inspect.list (p.stages.map fun s => Text.literal s.name)), ("config", p.config.inspect)]

end Emend
