import Emend.Recipes.Options

/-! # Setting the value of elements -/

namespace Emend.Recipes

open Markup

/-- Gives the elements at `path` that hold only text the value `new`; with `old`, only those of that value. -/
structure ElementValue where
  path : TagPath
  old : Option String
  new : String

namespace ElementValue

def name : String := "remold.xml.ChangeTagValue"

def ofOptions (options : Json) : Except Error ElementValue := do
  let record := (requiredText "elementName").both ((optionalText "oldValue").both (requiredText "newValue"))
  let (element, old, new) ← decodeOptions name (record.decoder "struct ChangeTagValueOptions" true) options
  return { path := ← TagPath.parse element, old, new }

/-- An element that is selected and has a value is not walked through. -/
def visitor (r : ElementValue) : Markup.Visitor (StateT Unit Visiting) where
  tag place t walk :=
    match t.value? with
    | none => walk
    | some current =>
      if place.selectedBy r.path t then
        if r.old.all (· == current) then StateT.lift (Visiting.fresh (setValue t r.new)) else return .unchanged
      else walk

def recipe (r : ElementValue) : Recipe where
  name := name
  displayName := "Change XML tag value"
  description := "Set the text of every element matching an expression"
  visitor := some (.ofMarkup r.visitor ())
  next := []

end ElementValue
end Emend.Recipes
