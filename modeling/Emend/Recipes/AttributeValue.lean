import Emend.Recipes.Options

/-! # Setting the value of attributes -/

namespace Emend.Recipes

open Markup

/-- Gives the attributes called `key` of the elements at `path` the value `new`; with `old`, only those of that
value. -/
structure AttributeValue where
  path : TagPath
  key : String
  old : Option String
  new : String

namespace AttributeValue

def name : String := "remold.xml.ChangeTagAttribute"

def ofOptions (options : Json) : Except Error AttributeValue := do
  let record := (requiredText "elementName").both ((requiredText "attributeName").both
    ((optionalText "oldValue").both (requiredText "newValue")))
  let (element, key, old, new) ←
    decodeOptions name (record.decoder "struct ChangeTagAttributeOptions" true) options
  return { path := ← TagPath.parse element, key, old, new }

/-- Whether the element that owns what stands at `place` is selected. -/
def ownerSelected (r : AttributeValue) (place : Place) : Bool :=
  match place.ancestors.getLast? with
  | some owner => r.path.selects place.ancestors.dropLast owner
  | none => false

def change (r : AttributeValue) (place : Place) (a : Attribute) : Visit Attribute :=
  if a.key = r.key ∧ r.ownerSelected place ∧ a.value ≠ r.new ∧ r.old.all (· == a.value) then
    .changed (a.withValue r.new)
  else .unchanged

def visitor (r : AttributeValue) : Markup.Visitor (StateT Unit Visiting) where
  attr place a := return r.change place a

def recipe (r : AttributeValue) : Recipe where
  name := name
  displayName := "Change XML attribute"
  description := "Set the value of an attribute on every element matching an expression"
  visitor := some (.ofMarkup r.visitor ())
  next := []

end AttributeValue
end Emend.Recipes
