import Emend.Recipes.Options

/-! # Setting the value of POM properties -/

namespace Emend.Recipes

open Markup

structure PropertyValue where
  key : String
  new : String

def propertyPath : TagPath := ⟨"/project/properties/*", true, ["project", "properties", "*"]⟩

namespace PropertyValue

def name : String := "remold.maven.ChangePropertyValue"

def ofOptions (options : Json) : Except Error PropertyValue := do
  let record := (requiredText "key").both (requiredText "newValue")
  let (key, new) ← decodeOptions name (record.decoder "struct ChangePropertyValueOptions" true) options
  if Text.trim key = "" then throw (.config s!"Recipe '{name}' needs a property key")
  return { key, new }

def visitor (r : PropertyValue) : Markup.Visitor (StateT Unit Visiting) where
  target := .mavenPom
  tag place t walk :=
    if place.selectedBy propertyPath t then
      if t.name = r.key then StateT.lift (Visiting.fresh (setValue t r.new)) else return .unchanged
    else walk

def recipe (r : PropertyValue) : Recipe where
  name := name
  displayName := "Change Maven property value"
  description := ""
  visitor := some (.ofMarkup r.visitor ())
  next := []

end PropertyValue
end Emend.Recipes
