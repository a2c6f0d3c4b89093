import Emend.Recipes.AttributeValue
import Emend.Recipes.DependencyVersion
import Emend.Recipes.ElementValue
import Emend.Recipes.TagSearch
import Emend.Proofs.Markup.Rebuild

/-! # The visitors of the recipes

None of them can tell an unchanged node from an equal new one, so what their visits come to is what the naive
traversal comes to. None has hooks for what stands between elements, so the traversal leaves that as it is.
-/

namespace Emend.Markup.Oblivious

variable {m : Type → Type} [Monad m] [LawfulMonad m] {α β : Type} {a : α}

theorem walking (a : α) : Oblivious a fun walk : m (Visit α) => walk := by
  intro walk
  rw [Functor.map_map]
  rfl

omit [LawfulMonad m] in
theorem finishing (a : α) (x : m (Visit α)) : Oblivious a fun _ => x := fun _ => rfl

theorem after (x : m β) {hook : β → m (Visit α) → m (Visit α)} (h : ∀ b, Oblivious a (hook b)) :
    Oblivious a fun walk => x >>= fun b => hook b walk := by
  intro walk
  rw [map_bind, map_bind]
  exact bind_congr fun b => h b walk

omit [LawfulMonad m] in
theorem ite {p : Prop} [Decidable p] {hook hook' : m (Visit α) → m (Visit α)} (h : Oblivious a hook)
    (h' : Oblivious a hook') : Oblivious a fun walk => if p then hook walk else hook' walk := by
  intro walk
  by_cases hp : p
  · simpa only [if_pos hp] using h walk
  · simpa only [if_neg hp] using h' walk

end Emend.Markup.Oblivious

namespace Emend.Markup.Visitor

variable {m : Type → Type} [Monad m] [LawfulMonad m] {v : Visitor m}

/-- No hooks but those for documents, elements and attributes do anything. -/
def HooksElements (v : Visitor m) : Prop :=
  v = { target := v.target, document := v.document, tag := v.tag, attr := v.attr }

namespace HooksElements

theorem rebuildContent_of_leaf [Cancellable m] (h : v.HooksElements) (place : Place) {c : Content}
    (leaf : c.tag? = none) : v.rebuildContent place c = pure c := by
  rw [h]
  cases c with
  | tag t => cases leaf
  | charData _ | comment _ | instruction _ => simp only [rebuildContent, Visit.result, map_pure, Visit.getD_unchanged]

theorem mapM_rebuildMisc (h : v.HooksElements) (place : Place) (ms : List Misc) :
    ms.mapM (v.rebuildMisc place) = pure ms := by
  have each (i : Misc) : v.rebuildMisc place i = pure i := by
    rw [h]
    cases i <;> simp only [rebuildMisc, Visit.result, map_pure, Visit.getD_unchanged]
  rw [funext each, List.mapM_pure, List.map_id']

/-- Of a prolog, the traversal rebuilds the attributes of its declaration. -/
theorem rebuildProlog_eq (h : v.HooksElements) (place : Place) (p : Prolog) :
    v.rebuildProlog place p = (do
      let declaration ← p.declaration.mapM (v.rebuildDeclaration place)
      return { p with declaration }) := by
  have walks (d : Declaration) (walk : m (Visit Declaration)) : v.declaration place d walk = walk := by
    rw [h]
  rw [rebuildProlog]
  cases p.declaration with
  | none => simp only [h.mapM_rebuildMisc, pure_bind, Option.mapM_none]
  | some d => simp only [h.mapM_rebuildMisc, walks, pure_bind, Option.mapM_some, bind_map_left, Visit.getD_changed]

theorem rebuildDocument_eq [Cancellable m] (h : v.HooksElements) (place : Place) (d : Document) :
    v.rebuildDocument place d = (do
      Cancellable.checkpoint
      let prolog ← v.rebuildProlog place d.prolog
      let root ← Visit.result (fun t => v.tag place t (.changed <$> v.rebuildTag place t)) d.root
      return { d with prolog, root }) := by
  have walks (p : Prolog) (walk : m (Visit Prolog)) : v.prolog place p walk = walk := by
    rw [h]
  simp only [rebuildDocument, walks, h.mapM_rebuildMisc, Visit.result, pure_bind, bind_map_left, Visit.getD_changed]

end HooksElements
end Emend.Markup.Visitor

namespace Emend.Recipes

open Markup

theorem ElementValue.visitor_isOblivious (r : ElementValue) : r.visitor.IsOblivious where
  document _ := .walking
  prolog _ := .walking
  declaration _ := .walking
  tag place t := by
    rw [visitor]
    cases h : t.value? with
    | none => simpa only [h] using Oblivious.walking t
    | some current =>
      simp only [h]
      exact .ite (.ite (.finishing t _) (.finishing t _)) (.walking t)

theorem PropertyValue.visitor_isOblivious (r : PropertyValue) : r.visitor.IsOblivious where
  document _ := .walking
  prolog _ := .walking
  declaration _ := .walking
  tag _ t := .ite (.ite (.finishing t _) (.finishing t _)) (.walking t)

theorem AttributeValue.visitor_isOblivious (r : AttributeValue) : r.visitor.IsOblivious where
  document _ := .walking
  prolog _ := .walking
  declaration _ := .walking
  tag _ := .walking

theorem DependencyVersion.visitor_isOblivious (r : DependencyVersion) : r.visitor.IsOblivious where
  document _ d := .after _ fun _ => .after _ fun _ => .walking d
  prolog _ := .walking
  declaration _ := .walking
  tag _ t := .after _ fun _ => .ite (.finishing t _) (.ite (.finishing t _) (.walking t))

theorem TagSearch.visitor_isOblivious (r : TagSearch) : r.visitor.IsOblivious where
  document _ := .walking
  prolog _ := .walking
  declaration _ := .walking
  tag place t := by
    intro walk
    simp only [visitor, map_bind, bind_map_left]
    apply bind_congr
    intro visited
    split
    · rfl
    · rw [map_pure, map_pure]
      rfl

end Emend.Recipes
