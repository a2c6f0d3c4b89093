import Emend.Catalogue.Basic
import Emend.OnChain

/-! # Activation

A declared recipe becomes a tree: those in its list follow it, in order and each with its own list. No name is
found again below itself.
-/

namespace Emend.Catalogue

/-- Null and an empty object are no options. -/
def hasOptions : Json → Bool
  | .null | .object [] => false
  | _ => true

mutual

/-- The recipe that a name stands for. The chain holds the names of the lists on the way to it, outermost first. -/
def resolveOnChain (c : Catalogue) (name : String) (options : Json) : OnChain String Recipe := do
  let chain ← get
  if chain.contains name then
    throw (.config ("Cyclic recipe list: " ++ " -> ".intercalate (chain ++ [name])))
  match c.find? name with
  | none =>
    match Recipes.builtin? name options with
    | some recipe => liftExcept recipe
    | none =>
      let place := match chain.getLast? with
        | none => ""
        | some parent => s!" in the recipe list of '{parent}'"
      throw (.config s!"Unknown recipe '{name}'{place}")
  | some d =>
    if hasOptions options then throw (.config s!"Declarative recipe '{name}' takes no options")
    modify (· ++ [name])
    let next ← c |>.resolveAllOnChain d.definition.recipeList
    modify List.dropLast
    return {
      name, displayName := d.definition.displayName.getD name
      description := d.definition.description.getD "", visitor := none, next }
partial_fixpoint

/-- The recipes that the entries of a list stand for. -/
def resolveAllOnChain (c : Catalogue) (references : List RecipeReference) : OnChain String (List Recipe) := do
  match references with
  | [] => return []
  | reference :: references =>
    let (child, options) ← liftExcept reference.target
    let recipe ← c |>.resolveOnChain child options
    let recipes ← c |>.resolveAllOnChain references
    return recipe :: recipes
partial_fixpoint

end

def unused (c : Catalogue) (chain : List String) : Nat :=
  (c.declared.entries.filter fun d => !chain.contains d.1).length

theorem unused_lt {c : Catalogue} {chain : List String} {name : String} {d : Declared}
    (h : c.find? name = some d) (hc : name ∉ chain) : unused c (name :: chain) < unused c chain := by
  have split : ∀ ds : List (String × Declared),
      (ds.filter fun d => !(name :: chain).contains d.1) =
        (ds.filter fun d => !chain.contains d.1).filter fun d => d.1 != name := by
    intro ds
    rw [List.filter_filter]
    congr 1
    funext d
    by_cases e : d.1 = name <;> simp [e]
  have found : (name, d) ∈ c.declared.entries.filter fun d => !chain.contains d.1 := by
    obtain ⟨l₁, l₂, e, _⟩ := List.lookup_eq_some_iff.1 h
    simp [e, hc]
  unfold unused
  rw [split]
  exact List.length_filter_lt_length_iff_exists.2 ⟨_, found, by simp⟩

/-- The recipe that a name stands for below those on the chain, which is only read and has the innermost first. -/
def resolve (c : Catalogue) (chain : List String) (name : String) (options : Json) : Except Error Recipe :=
  if hc : name ∈ chain then
    .error (.config ("Cyclic recipe list: " ++ " -> ".intercalate (chain.reverse ++ [name])))
  else
    match h : c.find? name with
    | none =>
      match Recipes.builtin? name options with
      | some recipe => recipe
      | none =>
        let place := match chain with
          | [] => ""
          | parent :: _ => s!" in the recipe list of '{parent}'"
        .error (.config s!"Unknown recipe '{name}'{place}")
    | some d =>
      if hasOptions options then .error (.config s!"Declarative recipe '{name}' takes no options")
      else
        have := unused_lt h hc
        do
        let next ← d.definition.recipeList.mapM fun reference => do
          let (child, options) ← reference.target
          c.resolve (name :: chain) child options
        return {
          name, displayName := d.definition.displayName.getD name
          description := d.definition.description.getD "", visitor := none, next }
termination_by c.unused chain

theorem ends_resolveAllOnChain {c : Catalogue} {chain : List String}
    (h : ∀ name options, (c.resolveOnChain name options).Ends chain.reverse (c.resolve chain name options))
    (references : List RecipeReference) :
    (c.resolveAllOnChain references).Ends chain.reverse
      (references.mapM fun reference => do
        let (child, options) ← reference.target
        c.resolve chain child options) := by
  induction references with
  | nil =>
    rw [resolveAllOnChain]
    exact .pure []
  | cons reference references ih =>
    rw [resolveAllOnChain, List.mapM_cons, bind_assoc]
    refine (OnChain.Ends.liftExcept reference.target).bind fun (child, options) _ => ?_
    exact (h child options).bind fun recipe _ => ih.bind fun recipes _ => .pure (recipe :: recipes)

/-- Resolving ends, and the chain is at every name what leads to it. -/
theorem ends_resolveOnChain (c : Catalogue) (chain : List String) (name : String) (options : Json) :
    (c.resolveOnChain name options).Ends chain.reverse (c.resolve chain name options) := by
  rw [resolveOnChain, resolve.eq_def]
  refine .get_bind ?_
  by_cases old : name ∈ chain
  · rw [dif_pos old, if_pos (List.contains_iff_mem.2 (List.mem_reverse.2 old))]
    exact .throw _
  rw [dif_neg old, if_neg fun contained => old (List.mem_reverse.1 (List.contains_iff_mem.1 contained))]
  split
  next missing =>
    dsimp only
    rw [missing]
    dsimp only
    cases Recipes.builtin? name options with
    | some recipe => exact .liftExcept recipe
    | none =>
      rw [List.getLast?_reverse]
      cases chain <;> exact .throw _
  next d found =>
    dsimp only
    rw [found]
    dsimp only
    by_cases given : hasOptions options = true
    · rw [if_pos given, if_pos given]
      exact .throw _
    have fewer := unused_lt found old
    rw [if_neg given, if_neg given]
    have below := ends_resolveAllOnChain (ends_resolveOnChain c (name :: chain)) d.definition.recipeList
    rw [List.reverse_cons] at below
    exact .within below List.dropLast_concat fun next _ => .pure _
termination_by c.unused chain

def activate (c : Catalogue) (names : List String) : Except Error (List Recipe) :=
  names.mapM fun name =>
    (c.resolveOnChain name (.object [])).result [] (c.ends_resolveOnChain [] name (.object [])).isSome

theorem activate_eq (c : Catalogue) (names : List String) :
    c.activate names = names.mapM fun name => c.resolve [] name (.object []) :=
  congrArg (names.mapM ·) (funext fun name => (c.ends_resolveOnChain [] name (.object [])).result_eq)

def pipeline (t : FileTree) (s : Settings) (base : FilePath) : Except Error Pipeline := do
  let c ← ofSettings t s base
  Pipeline.build (← c.activate s.active) s.config

end Emend.Catalogue
