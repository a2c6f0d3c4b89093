import Emend.Recipes.AttributeValue
import Emend.Recipes.DependencyVersion
import Emend.Recipes.ElementValue
import Emend.Recipes.TagSearch
import Emend.Recipes.TextReplacement

/-! # The recipes that are always there -/

namespace Emend.Recipes

def builtins : List (String × (Json → Except Error Recipe)) := [
  (ElementValue.name, fun options => (ElementValue.ofOptions options).map (·.recipe)),
  (AttributeValue.name, fun options => (AttributeValue.ofOptions options).map (·.recipe)),
  (TagSearch.name, fun options => (TagSearch.ofOptions options).map (·.recipe)),
  (DependencyVersion.name, fun options => (DependencyVersion.ofOptions options).map (·.recipe)),
  (PropertyValue.name, fun options => (PropertyValue.ofOptions options).map (·.recipe)),
  (TextReplacement.name, fun options => (TextReplacement.ofOptions options).map (·.recipe))]

def builtinNames : List String := builtins.map (·.1)

def isBuiltin (name : String) : Bool := builtinNames.contains name

def builtin? (name : String) (options : Json) : Option (Except Error Recipe) :=
  (builtins.lookup name).map (· options)

end Emend.Recipes
