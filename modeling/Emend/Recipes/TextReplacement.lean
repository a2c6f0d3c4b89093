import Emend.Glob
import Emend.Recipes.Options
import Emend.Regex.Search

/-! # Finding and replacing in plain text -/

namespace Emend.Recipes

inductive Needle where
  | literal (s : String)
  | regex (r : Regex)

structure TextReplacement where
  needle : Needle
  replacement : String
  files : Option Glob

namespace TextReplacement

def name : String := "remold.text.FindAndReplace"

def needle? (find : String) (regex : Bool) : Except Error Needle :=
  if regex then
    match Regex.parse find with
    | .ok r => .ok (.regex r)
    | .error f => .error (.config s!"Invalid regex '{find}': {f.message}")
  else .ok (.literal find)

def files? : Option String → Except Error (Option Glob)
  | none => .ok none
  | some p => match Glob.parse p with
    | .ok g => .ok (some g)
    | .error f => .error (.config s!"Invalid file pattern '{p}': {f.message}")

def ofOptions (options : Json) : Except Error TextReplacement := do
  let record := (requiredText "find").both ((requiredText "replace").both
    ((Json.Record.defaulted "regex" false Json.decodeBool).both (optionalText "filePattern")))
  let (find, replacement, regex, files) ←
    decodeOptions name (record.decoder "struct FindAndReplaceOptions" true) options
  if find.isEmpty then throw (.config s!"Recipe '{name}' needs a non-empty 'find'")
  return { needle := ← needle? find regex, replacement, files := ← files? files }

def replace (r : TextReplacement) (text : String) : String :=
  match r.needle with
  | .literal s => Text.replace s r.replacement text
  | .regex e => e.replaceAll r.replacement text

def visitor (r : TextReplacement) : SourceVisitor :=
  .ofText fun t =>
    if r.files.all (·.selects t.path.text) then return .changed { t with text := r.replace t.text }
    else return .unchanged

def recipe (r : TextReplacement) : Recipe where
  name := name
  displayName := "Find and replace"
  description := "Replace literal text or regex matches in plain-text files"
  visitor := some r.visitor
  next := []

end TextReplacement
end Emend.Recipes
