import Emend.FileFormat
import Emend.FileTree
import Emend.Recipes.Options
import Emend.Toml.Reader
import Emend.Yaml.Value

/-! # Recipe definitions

Recipes that are declared as lists of others. A file holds one definition, an array of them, or such an array
under `recipes`; YAML files hold several documents.
-/

namespace Emend

inductive RecipeReference where
  | name (s : String)
  | withOptions (options : SortedMap Json)

structure RecipeDefinition where
  name : String
  displayName : Option String := none
  description : Option String := none
  recipeList : List RecipeReference := []

namespace RecipeReference

def decode : Json.Decoder RecipeReference
  | _, .string s => .ok (.name s)
  | how, .object fields => (Json.decodeMap (fun _ j => .ok j) how (.object fields)).map .withOptions
  | _, _ => .error (.noVariant "RecipeReference")

def encode : RecipeReference → Json
  | name s => .string s
  | withOptions options => .object options.entries

/-- The recipe that is meant and its options: there has to be exactly one. -/
def target : RecipeReference → Except Error (String × Json)
  | name s => .ok (s, .object [])
  | withOptions options =>
    match options.entries with
    | [entry] => .ok entry
    | entries => .error (.config s!"A recipe list entry must name exactly one recipe, found {entries.length}")

end RecipeReference

namespace RecipeDefinition

open Json (Record Decoder)

def decode : Decoder RecipeDefinition :=
  let fields := ((Recipes.requiredText "name").both (Recipes.optionalText "displayName")).both
    ((Recipes.optionalText "description").both
      (Record.defaulted "recipeList" [] (Json.decodeList RecipeReference.decode)))
  (fields.map fun ((name, displayName), description, recipeList) =>
    RecipeDefinition.mk name displayName description recipeList).decoder "struct RecipeDefinition" true

def encode (d : RecipeDefinition) : Json := .object [
  ("name", .string d.name), ("displayName", .ofOption d.displayName), ("description", .ofOption d.description),
  ("recipeList", .array (d.recipeList.map RecipeReference.encode))]

def maxNesting : Nat := 127

def documents? (format : FileFormat) (text : String) : Option (List Json) :=
  match format with
  | .yaml => (Yaml.values? text).map (·.filter fun j => !(j matches .null))
  | .json => do
    let j ← Json.parse? text
    if maxNesting < j.nesting || !j.inRange then none
    return [j.merged]
  | .toml => (Toml.parse? text).map ([·])

def ofDocument (path : FilePath) (document : Json) : Except Error (List RecipeDefinition) := do
  let items ← match document with
    | .array items => pure items
    | .object fields =>
      if (fields.lookup "name").isSome then pure [.object fields]
      else
        match fields.lookup "recipes" with
        | some (.array items) => pure items
        | _ => throw (.config s!"Recipe file '{path.text}' has neither a 'name' nor a 'recipes' array")
    | j => pure [j]
  items.mapM fun j => (decode .built j).mapError fun e =>
    .config s!"Invalid recipe definition in '{path.text}': {e.message}"

def documentsOf (path : FilePath) (text : String) : Except Error (List Json) :=
  let result : Except String (List Json) := match FileFormat.ofPath? path with
    | none => .error FileFormat.unsupported
    | some format => (documents? format text).elim (.error format.malformed) .ok
  result.mapError fun reason => .config s!"Failed to load recipes from '{path.text}': {reason}"

end RecipeDefinition
end Emend
