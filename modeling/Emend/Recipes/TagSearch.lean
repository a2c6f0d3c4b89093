import Emend.Recipes.Options

/-! # Searching for elements -/

namespace Emend.Recipes

open Markup

structure TagSearch where
  expression : String
  path : TagPath

namespace TagSearch

def name : String := "remold.xml.FindTags"

def ofOptions (options : Json) : Except Error TagSearch := do
  let expression ← decodeOptions name ((requiredText "xpath").decoder "struct FindTagsOptions" true) options
  return { expression, path := ← TagPath.parse expression }

def mark (r : TagSearch) (t : Tag) : Fresh Tag :=
  return { t with markers := t.markers ++ [← Marker.newSearchResult (some r.expression)] }

/-- What an element holds is searched before it is marked itself. -/
def visitor (r : TagSearch) : Markup.Visitor (StateT Unit Visiting) where
  tag place t walk := do
    let visited ← walk
    if place.selectedBy r.path t && !hasSearchResult t.markers then
      return .changed (← StateT.lift (Visiting.fresh (r.mark (visited.getD t))))
    else return visited

def recipe (r : TagSearch) : Recipe where
  name := name
  displayName := "Find XML tags"
  description := "Attach a search result marker to every element matching an expression"
  visitor := some (.ofMarkup r.visitor ())
  next := []

end TagSearch
end Emend.Recipes
