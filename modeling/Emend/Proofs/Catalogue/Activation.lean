import Emend.Catalogue.Activation
import Emend.Proofs.Pipeline.Stages
import Emend.Proofs.Recipes.Builtin
import Mathlib.Data.List.Forall2
import Mathlib.Logic.Relation

/-! # Activation unfolds the recipe lists

What a name stands for is the tree that its list unfolds into. There is one exactly if nothing is wrong with any name
that the lists lead to, and no name of the tree comes again below itself, so only its depth can keep it from becoming a
pipeline (`activate_unfolds`).
-/

namespace Emend

def RecipeReference.named : RecipeReference → List String
  | name s => [s]
  | withOptions options => options.keys

theorem RecipeReference.exists_target_iff (reference : RecipeReference) :
    (∃ target, reference.target = .ok target) ↔ reference.named.length = 1 := by
  cases reference with
  | name s => exact iff_of_true ⟨_, rfl⟩ rfl
  | withOptions options =>
    rw [target, named, SortedMap.keys, List.length_map]
    cases options.entries with
    | nil =>
      constructor
      · rintro ⟨_, h⟩
        cases h
      · intro h
        cases h
    | cons entry entries =>
      cases entries with
      | nil => exact iff_of_true ⟨_, rfl⟩ rfl
      | cons second entries =>
        constructor
        · rintro ⟨_, h⟩
          cases h
        · intro h
          cases h

namespace Catalogue

/-- A name that the lists lead to: the names above it, the innermost first, and the options it is given. -/
structure Occurrence where
  above : List String
  name : String
  options : Json

/-- From a declared name to one in its list. -/
inductive Leads (c : Catalogue) : Occurrence → Occurrence → Prop where
  | entry {above : List String} {name child : String} {options given : Json} {d : Declared}
      {reference : RecipeReference} (found : c.find? name = some d) (listed : reference ∈ d.definition.recipeList)
      (target : reference.target = .ok (child, given)) :
      Leads c ⟨above, name, options⟩ ⟨name :: above, child, given⟩

structure Sound (c : Catalogue) (o : Occurrence) : Prop where
  known : c.contains o.name = true
  new : (c.find? o.name).isSome = true → o.name ∉ o.above
  plain : (c.find? o.name).isSome = true → o.options = .null ∨ o.options = .object []
  entries : ∀ d ∈ c.find? o.name, ∀ reference ∈ d.definition.recipeList, reference.named.length = 1
  accepted : c.find? o.name = none → ∀ result ∈ Recipes.builtin? o.name o.options, ∃ r, result = .ok r

mutual

/-- The tree that a name below others unfolds into. -/
inductive Unfolds (c : Catalogue) : List String → String → Json → Recipe → Prop where
  | builtin {above : List String} {name : String} {options : Json} {r : Recipe} (undeclared : c.find? name = none)
      (made : Recipes.builtin? name options = some (.ok r)) (named : r.name = name) (leaf : r.next = []) :
      Unfolds c above name options r
  | declared {above : List String} {name : String} {options : Json} {d : Declared} {next : List Recipe}
      (found : c.find? name = some d) (new : name ∉ above) (plain : hasOptions options = false)
      (list : UnfoldsAll c (name :: above) d.definition.recipeList next) :
      Unfolds c above name options
        ⟨name, d.definition.displayName.getD name, d.definition.description.getD "", none, next⟩

inductive UnfoldsAll (c : Catalogue) : List String → List RecipeReference → List Recipe → Prop where
  | nil {above : List String} : UnfoldsAll c above [] []
  | cons {above : List String} {reference : RecipeReference} {references : List RecipeReference} {name : String}
      {options : Json} {r : Recipe} {rs : List Recipe} (target : reference.target = .ok (name, options))
      (first : Unfolds c above name options r) (rest : UnfoldsAll c above references rs) :
      UnfoldsAll c above (reference :: references) (r :: rs)

end

theorem UnfoldsAll.of_mem {c : Catalogue} {above : List String} {references : List RecipeReference} {rs : List Recipe}
    (h : UnfoldsAll c above references rs) {reference : RecipeReference} (listed : reference ∈ references) :
    ∃ name options r, reference.target = .ok (name, options) ∧ Unfolds c above name options r := by
  induction references generalizing rs with
  | nil => cases listed
  | cons first references ih =>
    obtain _ | ⟨target, unfolds, rest⟩ := h
    obtain rfl | listed := List.mem_cons.1 listed
    · exact ⟨_, _, _, target, unfolds⟩
    · exact ih rest listed

theorem UnfoldsAll.of_forall {c : Catalogue} {above : List String} {references : List RecipeReference}
    (h : ∀ reference ∈ references, ∃ name options r,
      reference.target = .ok (name, options) ∧ Unfolds c above name options r) :
    ∃ rs, UnfoldsAll c above references rs := by
  induction references with
  | nil => exact ⟨[], .nil⟩
  | cons reference references ih =>
    obtain ⟨name, options, r, target, first⟩ := h reference List.mem_cons_self
    obtain ⟨rs, rest⟩ := ih fun other listed => h other (List.mem_cons_of_mem _ listed)
    exact ⟨r :: rs, .cons target first rest⟩

theorem hasOptions_eq_false_iff {options : Json} :
    hasOptions options = false ↔ options = .null ∨ options = .object [] := by
  constructor
  · intro h
    match options, h with
    | .null, _ => exact .inl rfl
    | .object [], _ => exact .inr rfl
  · rintro (rfl | rfl) <;> rfl

variable {c : Catalogue}

section Resolved

def Chained (c : Catalogue) (above : List String) : Prop := ∀ name ∈ above, (c.find? name).isSome = true

theorem Chained.cons {above : List String} (h : Chained c above) {name : String} {d : Declared}
    (found : c.find? name = some d) : Chained c (name :: above) := by
  intro other ho
  obtain rfl | ho := List.mem_cons.1 ho
  · rw [found]
    rfl
  · exact h other ho

theorem Chained.not_mem {above : List String} (h : Chained c above) {name : String}
    (undeclared : c.find? name = none) : name ∉ above := by
  intro hn
  have declared := h name hn
  rw [undeclared] at declared
  cases declared

theorem resolve_of_undeclared {above : List String} {name : String} (options : Json) (new : name ∉ above)
    (undeclared : c.find? name = none) {r : Recipe} :
    c.resolve above name options = .ok r ↔ Recipes.builtin? name options = some (.ok r) := by
  rw [resolve.eq_def, dif_neg new]
  split
  next =>
    cases Recipes.builtin? name options with
    | none => simp
    | some result => simp
  next d found =>
    rw [undeclared] at found
    cases found

def resolveAll (c : Catalogue) (above : List String) (references : List RecipeReference) : Except Error (List Recipe) :=
  references.mapM fun reference => do
    let (child, options) ← reference.target
    c.resolve above child options

theorem resolve_of_declared {above : List String} {name : String} (options : Json) (new : name ∉ above)
    {d : Declared} (found : c.find? name = some d) :
    c.resolve above name options =
      if hasOptions options then .error (.config s!"Declarative recipe '{name}' takes no options")
      else (c.resolveAll (name :: above) d.definition.recipeList).map fun next =>
        ⟨name, d.definition.displayName.getD name, d.definition.description.getD "", none, next⟩ := by
  rw [resolve.eq_def, dif_neg new]
  split
  next undeclared =>
    rw [found] at undeclared
    cases undeclared
  next d' found' =>
    obtain rfl := Option.some.inj (found.symm.trans found')
    rfl

theorem resolveAll_eq_ok_iff {above : List String}
    (each : ∀ name options r, c.resolve above name options = .ok r ↔ Unfolds c above name options r)
    (references : List RecipeReference) (rs : List Recipe) :
    c.resolveAll above references = .ok rs ↔ UnfoldsAll c above references rs := by
  induction references generalizing rs with
  | nil =>
    constructor
    · rintro ⟨⟩
      exact .nil
    · rintro ⟨⟩
      rfl
  | cons reference references ih =>
    rw [resolveAll, List.mapM_cons, bind_eq_ok]
    constructor
    · rintro ⟨r, hr, h⟩
      obtain ⟨⟨name, options⟩, target, hr⟩ := bind_eq_ok.1 hr
      obtain ⟨rest, hrest, h⟩ := bind_eq_ok.1 h
      cases h
      exact .cons target ((each _ _ _).1 hr) ((ih rest).1 hrest)
    · rintro (_ | ⟨target, first, rest⟩)
      refine ⟨_, bind_eq_ok.2 ⟨_, target, (each _ _ _).2 first⟩, bind_eq_ok.2 ⟨_, (ih _).2 rest, rfl⟩⟩

/-- Resolving a name comes to the tree it unfolds into. -/
theorem resolve_eq_ok_iff {above : List String} (h : Chained c above) (name : String) (options : Json) (r : Recipe) :
    c.resolve above name options = .ok r ↔ Unfolds c above name options r := by
  cases hd : c.find? name with
  | none =>
    rw [resolve_of_undeclared options (h.not_mem hd) hd]
    constructor
    · intro made
      obtain ⟨named, leaf⟩ := (Recipes.isBuiltin_of_builtin? made).name_and_next
      exact .builtin hd made named leaf
    · intro unfolds
      cases unfolds with
      | builtin _ made => exact made
      | declared found =>
        rw [hd] at found
        cases found
  | some d =>
    -- a name that stands above itself is an error on the one side and unfolds into nothing on the other
    by_cases new : name ∈ above
    · refine iff_of_false ?_ ?_
      · rw [resolve.eq_def, dif_pos new]
        nofun
      · intro unfolds
        cases unfolds with
        | builtin undeclared =>
          rw [hd] at undeclared
          cases undeclared
        | declared _ fresh => exact fresh new
    · have decreasing := unused_lt hd new
      have list := resolveAll_eq_ok_iff (resolve_eq_ok_iff (h.cons hd)) d.definition.recipeList
      rw [resolve_of_declared options new hd]
      constructor
      · intro resolved
        split at resolved
        · cases resolved
        · next plain =>
          obtain ⟨next, hnext, rfl⟩ := map_eq_ok.1 resolved
          exact .declared hd new (Bool.eq_false_iff.2 plain) ((list next).1 hnext)
      · intro unfolds
        cases unfolds with
        | builtin undeclared =>
          rw [hd] at undeclared
          cases undeclared
        | declared found _ plain below =>
          obtain rfl := Option.some.inj (hd.symm.trans found)
          rw [plain]
          exact map_eq_ok.2 ⟨_, (list _).2 below, rfl⟩
termination_by c.unused above

end Resolved

section Reached

theorem Unfolds.sound {above : List String} {name : String} {options : Json} {r : Recipe}
    (h : Unfolds c above name options r) : Sound c ⟨above, name, options⟩ := by
  cases h with
  | builtin undeclared made =>
    have nothing : (c.find? name).isSome = false := by rw [undeclared]; rfl
    constructor
    case known =>
      rw [contains, ← Recipes.isSome_builtin? name options, made]
      rfl
    case new => simp [nothing]
    case plain => simp [nothing]
    case entries => simp [undeclared]
    case accepted =>
      intro _ result hresult
      obtain rfl := Option.some.inj (made.symm.trans hresult)
      exact ⟨r, rfl⟩
  | @declared _ _ _ d _ found new plain list =>
    constructor
    case known => simp [contains, found]
    case new => exact fun _ => new
    case plain => exact fun _ => hasOptions_eq_false_iff.1 plain
    case entries =>
      intro d' hd' reference listed
      obtain rfl := Option.some.inj (found.symm.trans hd')
      obtain ⟨child, given, _, target, -⟩ := list.of_mem listed
      exact reference.exists_target_iff.1 ⟨_, target⟩
    case accepted => simp [found]

/-- Below what unfolds everything unfolds. -/
theorem Leads.unfolds {o o' : Occurrence} (h : Leads c o o') (unfolds : ∃ r, Unfolds c o.above o.name o.options r) :
    ∃ r, Unfolds c o'.above o'.name o'.options r := by
  cases h with
  | entry found listed target =>
    obtain ⟨_, ⟨undeclared, _, _, _⟩ | ⟨found', _, _, list⟩⟩ := unfolds
    · rw [found] at undeclared
      cases undeclared
    · obtain rfl := Option.some.inj (found.symm.trans found')
      obtain ⟨_, _, r, target', first⟩ := list.of_mem listed
      cases target.symm.trans target'
      exact ⟨r, first⟩

/-- A name unfolds into a tree exactly if everything that it leads to is sound. -/
theorem exists_unfolds_iff (above : List String) (name : String) (options : Json) :
    (∃ r, Unfolds c above name options r) ↔
      ∀ o, Relation.ReflTransGen (Leads c) ⟨above, name, options⟩ o → Sound c o := by
  constructor
  · intro unfolds o reached
    have here : ∃ r, Unfolds c o.above o.name o.options r := by
      induction reached with
      | refl => exact unfolds
      | tail _ step ih => exact step.unfolds ih
    obtain ⟨_, here⟩ := here
    exact here.sound
  · intro sound
    have here := sound _ .refl
    cases hd : c.find? name with
    | none =>
      have known : (Recipes.builtin? name options).isSome = true := by
        have listed := here.known
        rw [contains, hd] at listed
        rw [Recipes.isSome_builtin?]
        simpa using listed
      obtain ⟨result, hresult⟩ := Option.isSome_iff_exists.1 known
      obtain ⟨r, rfl⟩ := here.accepted hd result hresult
      obtain ⟨named, leaf⟩ := (Recipes.isBuiltin_of_builtin? hresult).name_and_next
      exact ⟨r, .builtin hd hresult named leaf⟩
    | some d =>
      have declared : (c.find? name).isSome = true := by rw [hd]; rfl
      have new : name ∉ above := here.new declared
      have decreasing := unused_lt hd new
      -- whatever an entry of the list leads to is reached from here too, one step later
      obtain ⟨next, list⟩ : ∃ next, UnfoldsAll c (name :: above) d.definition.recipeList next := by
        refine UnfoldsAll.of_forall fun reference listed => ?_
        obtain ⟨⟨child, given⟩, target⟩ := reference.exists_target_iff.2 (here.entries d hd reference listed)
        have below := (exists_unfolds_iff (name :: above) child given).2 fun o reached =>
          sound o (reached.head (.entry hd listed target))
        obtain ⟨r, first⟩ := below
        exact ⟨child, given, r, target, first⟩
      exact ⟨_, .declared hd new (hasOptions_eq_false_iff.2 (here.plain declared)) list⟩
termination_by c.unused above

end Reached

section Built

mutual

/-- In a tree that a name unfolds into, no name comes again below itself. -/
theorem Unfolds.new_listing {above : List String} {name : String} {options : Json} {r : Recipe}
    (h : Unfolds c above name options r) (chained : Chained c above) :
    ∀ s ∈ Stage.listing above.reverse r, s.name ∉ s.chain.dropLast := by
  cases h with
  | builtin undeclared _ named leaf =>
    obtain ⟨name, _, _, visitor, next⟩ := r
    obtain rfl : next = [] := leaf
    obtain rfl := named
    intro s hs
    obtain rfl := List.mem_singleton.1 hs
    have dropped : (above.reverse ++ [name]).dropLast = above.reverse := List.dropLast_concat
    simpa [dropped] using chained.not_mem undeclared
  | declared found new _ list =>
    intro s hs
    rw [Stage.listing] at hs
    obtain rfl | hs := List.mem_cons.1 hs
    · have dropped : (above.reverse ++ [name]).dropLast = above.reverse := List.dropLast_concat
      simpa [dropped] using new
    · rw [← List.reverse_cons] at hs
      exact list.new_listing (chained.cons found) s hs

theorem UnfoldsAll.new_listing {above : List String} {references : List RecipeReference} {rs : List Recipe}
    (h : UnfoldsAll c above references rs) (chained : Chained c above) :
    ∀ s ∈ Stage.listingAll above.reverse rs, s.name ∉ s.chain.dropLast := by
  cases h with
  | nil => exact fun s hs => absurd hs List.not_mem_nil
  | cons _ first rest =>
    intro s hs
    obtain hs | hs := List.mem_append.1 hs
    · exact first.new_listing chained s hs
    · exact rest.new_listing chained s hs

end

end Built

theorem activate_eq_ok_iff {names : List String} {rs : List Recipe} :
    c.activate names = .ok rs ↔ List.Forall₂ (fun name r => Unfolds c [] name (.object []) r) names rs := by
  have chained : Chained c [] := fun _ hn => absurd hn List.not_mem_nil
  rw [activate_eq]
  induction names generalizing rs with
  | nil =>
    constructor
    · rintro ⟨⟩
      exact .nil
    · rintro ⟨⟩
      rfl
  | cons name names ih =>
    rw [List.mapM_cons, bind_eq_ok]
    constructor
    · rintro ⟨r, hr, h⟩
      obtain ⟨rest, hrest, h⟩ := bind_eq_ok.1 h
      cases h
      exact .cons ((resolve_eq_ok_iff chained _ _ _).1 hr) (ih.1 hrest)
    · rintro (_ | ⟨first, rest⟩)
      exact ⟨_, (resolve_eq_ok_iff chained _ _ _).2 first, bind_eq_ok.2 ⟨_, ih.2 rest, rfl⟩⟩

theorem exists_forall₂_iff {α β : Type} {R : α → β → Prop} {as : List α} :
    (∃ bs, List.Forall₂ R as bs) ↔ ∀ a ∈ as, ∃ b, R a b := by
  induction as with
  | nil => exact iff_of_true ⟨[], .nil⟩ fun a ha => absurd ha List.not_mem_nil
  | cons a as ih =>
    rw [List.forall_mem_cons, ← ih]
    constructor
    · rintro ⟨_, _ | ⟨first, rest⟩⟩
      exact ⟨⟨_, first⟩, _, rest⟩
    · rintro ⟨⟨b, first⟩, bs, rest⟩
      exact ⟨b :: bs, .cons first rest⟩

theorem new_listingAll {names : List String} {rs : List Recipe}
    (h : List.Forall₂ (fun name r => Unfolds c [] name (.object []) r) names rs) :
    ∀ s ∈ Stage.listingAll [] rs, s.name ∉ s.chain.dropLast := by
  induction h with
  | nil => exact fun s hs => absurd hs List.not_mem_nil
  | cons first _ ih =>
    intro s hs
    obtain hs | hs := List.mem_append.1 hs
    · exact first.new_listing (fun _ hn => absurd hn List.not_mem_nil) s hs
    · exact ih s hs

/-- Names are activated exactly if all that their lists lead to is sound, and each comes to the tree that it unfolds
into. No pipeline of such trees is refused as cyclic; those with a chain of more than 64 recipes are refused, and the
stages of the others are the trees in pre-order. -/
theorem activate_unfolds (c : Catalogue) (names : List String) :
    ((∃ rs, c.activate names = .ok rs) ↔
      ∀ name ∈ names, ∀ o, Relation.ReflTransGen (Leads c) ⟨[], name, .object []⟩ o → Sound c o) ∧
    ∀ rs, c.activate names = .ok rs →
      List.Forall₂ (fun name r => Unfolds c [] name (.object []) r) names rs ∧
      ∀ config,
        (∀ chain name, Pipeline.build rs config ≠ .error (.config (ChainFault.repeated chain name).message)) ∧
        (∀ e, Pipeline.build rs config = .error e → ∃ s ∈ Stage.listingAll [] rs,
          64 < s.chain.length ∧ e = .config (ChainFault.tooLong s.name).message) ∧
        ((∃ p, Pipeline.build rs config = .ok p) ↔ ∀ s ∈ Stage.listingAll [] rs, s.chain.length ≤ 64) ∧
        ∀ p, Pipeline.build rs config = .ok p → p.stages.map (·.name) = Recipe.preorderAll rs := by
  constructor
  · simp only [activate_eq_ok_iff, exists_forall₂_iff, exists_unfolds_iff]
  · intro rs activated
    have unfolds := activate_eq_ok_iff.1 activated
    refine ⟨unfolds, fun config => ?_⟩
    obtain ⟨s, hs, long, refused⟩ | ⟨short, built⟩ := Pipeline.build_of_new (new_listingAll unfolds) config
    · rw [refused]
      refine ⟨fun chain name cyclic => ?_, fun e he => ?_, iff_of_false nofun fun short => ?_, nofun⟩
      · exact ChainFault.message_tooLong_ne_repeated s.name chain name (Error.config.inj (Except.error.inj cyclic))
      · cases he
        exact ⟨s, hs, long, rfl⟩
      · exact absurd (short s hs) (Nat.not_le.2 long)
    · rw [built]
      refine ⟨nofun, nofun, iff_of_true ⟨_, rfl⟩ short, fun p hp => ?_⟩
      cases hp
      exact Stage.map_name_listingAll [] rs

def searching : Declared where
  definition := {
    name := "inner"
    recipeList := [.withOptions (.ofList [(Recipes.TagSearch.name, .object [("xpath", .string "/a")])])] }

def searchingTwice : Declared where
  definition := { name := "outer", recipeList := [.name "inner", .name "inner"] }

def sharing : Catalogue where
  declared := .ofList [("inner", searching), ("outer", searchingTwice)]

theorem activate_unfolds_sharing :
    ∃ rs p, sharing.activate ["outer"] = .ok rs ∧ Pipeline.build rs {} = .ok p ∧
      p.stages.map (·.name) = ["outer", "inner", Recipes.TagSearch.name, "inner", Recipes.TagSearch.name] := by
  obtain ⟨search, hsearch⟩ : ∃ r, Unfolds sharing ["inner", "outer"] Recipes.TagSearch.name
      (.object [("xpath", .string "/a")]) r := ⟨_, .builtin rfl rfl rfl rfl⟩
  have named : search.name = Recipes.TagSearch.name ∧ search.next = [] := by
    cases hsearch with
    | builtin _ _ named leaf => exact ⟨named, leaf⟩
    | declared found => cases found
  have new : "inner" ∉ ["outer"] := by decide
  have inner : Unfolds sharing ["outer"] "inner" (.object []) ⟨"inner", "inner", "", none, [search]⟩ :=
    .declared (d := searching) rfl new rfl (.cons rfl hsearch .nil)
  have activated : sharing.activate ["outer"] = .ok [⟨"outer", "outer", "", none, [
      ⟨"inner", "inner", "", none, [search]⟩, ⟨"inner", "inner", "", none, [search]⟩]⟩] :=
    activate_eq_ok_iff.2 (.cons (.declared (d := searchingTwice) rfl List.not_mem_nil rfl
      (.cons rfl inner (.cons rfl inner .nil))) .nil)
  obtain ⟨-, -, built, stages⟩ := ((activate_unfolds sharing ["outer"]).2 _ activated).2 {}
  obtain ⟨name, _, _, visitor, next⟩ := search
  obtain ⟨rfl, rfl⟩ := named
  obtain ⟨p, hp⟩ := built.2 (by simp [Stage.listingAll, Stage.listing])
  exact ⟨_, p, activated, hp, stages p hp⟩

end Catalogue
end Emend
