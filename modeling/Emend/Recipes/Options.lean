import Emend.Error
import Emend.Json.Shape
import Emend.Markup.Edit
import Emend.Recipe

/-! # What recipes share

Options are decoded before a recipe is made, so that it cannot fail on them later. An element is given a new
value only if it has another one.
-/

namespace Emend.Recipes

def decodeOptions {α : Type} (name : String) (d : Json.Decoder α) (options : Json) : Except Error α :=
  match d .built options with
  | .ok a => .ok a
  | .error e => .error (.config s!"Invalid options for recipe '{name}': {e.message}")

def optionalText (name : String) : Json.Record (Option String) :=
  .defaulted name none (Json.decodeOption Json.decodeString)

def requiredText (name : String) : Json.Record String := .field name Json.decodeString

def setValue (t : Markup.Tag) (value : String) : Fresh (Visit Markup.Tag) := do
  if t.value? = some value then return .unchanged else return .changed (← t.withValue value)

end Emend.Recipes
