import Emend.Proofs.Outcome
import Emend.Recipes.Builtin

/-! # The built-in recipes

A name with options stands for one of six kinds of recipes, each of which goes by its name.
-/

namespace Emend.Recipes

inductive IsBuiltin : String → Recipe → Prop
  | elementValue (r : ElementValue) : IsBuiltin ElementValue.name r.recipe
  | attributeValue (r : AttributeValue) : IsBuiltin AttributeValue.name r.recipe
  | tagSearch (r : TagSearch) : IsBuiltin TagSearch.name r.recipe
  | dependencyVersion (r : DependencyVersion) : IsBuiltin DependencyVersion.name r.recipe
  | propertyValue (r : PropertyValue) : IsBuiltin PropertyValue.name r.recipe
  | textReplacement (r : TextReplacement) : IsBuiltin TextReplacement.name r.recipe

theorem mem_builtins_of_builtin? {name : String} {options : Json} {result : Except Error Recipe}
    (h : builtin? name options = some result) : ∃ make, (name, make) ∈ builtins ∧ make options = result := by
  obtain ⟨make, found, made⟩ := Option.map_eq_some_iff.1 h
  obtain ⟨before, behind, listed, -⟩ := List.lookup_eq_some_iff.1 found
  refine ⟨make, ?_, made⟩
  rw [listed]
  exact List.mem_append_right before List.mem_cons_self

theorem isBuiltin_of_builtin? {name : String} {options : Json} {recipe : Recipe}
    (h : builtin? name options = some (.ok recipe)) : IsBuiltin name recipe := by
  obtain ⟨make, listed, made⟩ := mem_builtins_of_builtin? h
  simp only [builtins, List.mem_cons, List.not_mem_nil, or_false, Prod.mk.injEq] at listed
  obtain ⟨rfl, rfl⟩ | ⟨rfl, rfl⟩ | ⟨rfl, rfl⟩ | ⟨rfl, rfl⟩ | ⟨rfl, rfl⟩ | ⟨rfl, rfl⟩ := listed
  all_goals obtain ⟨r, -, rfl⟩ := map_eq_ok.1 made
  · exact .elementValue r
  · exact .attributeValue r
  · exact .tagSearch r
  · exact .dependencyVersion r
  · exact .propertyValue r
  · exact .textReplacement r

/-- A built-in recipe goes by its name, and nothing comes after it. -/
theorem IsBuiltin.name_and_next {name : String} {recipe : Recipe} (h : IsBuiltin name recipe) :
    recipe.name = name ∧ recipe.next = [] := by
  cases h <;> exact ⟨rfl, rfl⟩

theorem isSome_builtin? (name : String) (options : Json) : (builtin? name options).isSome = isBuiltin name := by
  rw [builtin?, Option.isSome_map, isBuiltin, builtinNames]
  induction builtins with
  | nil => rfl
  | cons entry entries ih =>
    rw [List.lookup_cons, List.map_cons, List.contains_cons]
    cases name == entry.1 with
    | true => rfl
    | false => exact ih

end Emend.Recipes
