import Emend.Markup.Query
import Emend.Proofs.Markup.Revision
import Mathlib.Data.List.Forall2

/-! # Elements along a path of names

A path of names leads from an element to elements inside it. Where an edit leaves the elements on the way alone,
those that the path leads to in the edited tree are the edited ones, in the same order.
-/

namespace Emend.Markup

/-- The elements that a path of names leads to. -/
def Tag.reached (t : Tag) : List String → List Tag
  | [] => [t]
  | name :: names => (t.childrenNamed name).flatMap (·.reached names)

theorem Tag.mem_childrenNamed {t c : Tag} {items : List Content} (h : t.content = some items) (hc : .tag c ∈ items) :
    c ∈ t.childrenNamed c.name := by
  refine List.mem_filter.2 ⟨List.mem_filterMap.2 ⟨.tag c, ?_, rfl⟩, beq_self_eq_true c.name⟩
  rw [Tag.items, h]
  exact hc

theorem Tag.name_of_mem_childrenNamed {t c : Tag} {name : String} (h : c ∈ t.childrenNamed name) : c.name = name :=
  eq_of_beq (List.mem_filter.1 h).2

theorem Tag.head?_childrenNamed (t : Tag) (name : String) : (t.childrenNamed name).head? = t.child? name :=
  List.head?_filter

theorem Tag.reached_child_subset {t c : Tag} {name : String} (h : t.child? name = some c)
    (names : List String) : c.reached names ⊆ t.reached (name :: names) := by
  intro u hu
  rw [← head?_childrenNamed] at h
  exact List.mem_flatMap.2 ⟨c, List.mem_of_mem_head? h, hu⟩

/-- What the names of the elements are on the way to one that a path leads to, those around it and the last one. -/
theorem Tag.names_of_mem_reached {t u : Tag} {names : List String} (h : u ∈ t.reached names) :
    (t.name :: names).dropLast ++ [u.name] = t.name :: names := by
  induction names generalizing t with
  | nil =>
    obtain rfl := List.mem_singleton.1 h
    rfl
  | cons name names ih =>
    obtain ⟨c, hc, hu⟩ := List.mem_flatMap.1 h
    have inside := ih hu
    rw [name_of_mem_childrenNamed hc] at inside
    rw [List.dropLast_cons_cons, List.cons_append, inside]

/-- The edit makes the one element of the other, whatever ids it is given. -/
def Tag.RevisesTo (f : Edit) (ancestors : List String) (t u : Tag) : Prop := ∃ s, ((t.revise f ancestors).run s).1 = u

def Edit.KeepsNames (f : Edit) : Prop := ∀ ancestors t s, ((f ancestors t).run s).1.name = t.name

/-- The edit does nothing to elements on this path from the root. -/
def Edit.IdleAt (f : Edit) (path : List String) : Prop :=
  ∀ ancestors t, ancestors ++ [t.name] = path → f ancestors t = pure t

section

variable {f : Edit}

theorem Tag.RevisesTo.name (keeps : f.KeepsNames) {ancestors : List String} {t u : Tag}
    (h : t.RevisesTo f ancestors u) :
    u.name = t.name := by
  obtain ⟨s, rfl⟩ := h
  rw [Tag.revise_eq, StateT.run_bind]
  exact keeps ancestors _ _

theorem Content.forall₂_tags (f : Edit) (ancestors : List String) (cs : List Content) (s : Supply) :
    List.Forall₂ (Tag.RevisesTo f ancestors) (cs.filterMap Content.tag?)
      (((Content.reviseAll f ancestors cs).run s).1.filterMap Content.tag?) := by
  induction cs generalizing s with
  | nil => exact .nil
  | cons c cs ih =>
    cases c with
    | tag t => exact .cons ⟨s, rfl⟩ (ih _)
    | charData _ | comment _ | instruction _ => exact ih s

theorem Tag.forall₂_children (f : Edit) (ancestors : List String) (t : Tag) (s : Supply) :
    List.Forall₂ (Tag.RevisesTo f (ancestors ++ [t.name])) t.children
      ((t.reviseInside f ancestors).run s).1.children := by
  obtain ⟨id, leading, markers, name, attributes, content, closing, beforeClose⟩ := t
  cases content with
  | none => exact .nil
  | some items => exact Content.forall₂_tags f _ items s

variable {ancestors : List String} {t u : Tag}

/-- An element that is left alone itself. -/
theorem Tag.RevisesTo.inside (h : t.RevisesTo f ancestors u) (idle : f.IdleAt (ancestors ++ [t.name])) :
    ∃ s, ((t.reviseInside f ancestors).run s).1 = u := by
  obtain ⟨s, rfl⟩ := h
  refine ⟨s, ?_⟩
  have here := idle ancestors ((t.reviseInside f ancestors).run s).1 rfl
  rw [Tag.revise_eq, StateT.run_bind]
  exact (congrArg (fun x => (x.run ((t.reviseInside f ancestors).run s).2).1) here).symm

/-- An element in which everything is left alone. -/
theorem Tag.RevisesTo.outside (h : t.RevisesTo f ancestors u)
    (idle : ∀ more u, f (ancestors ++ t.name :: more) u = pure u) :
    ∃ s, ((f ancestors t).run s).1 = u := by
  obtain ⟨s, rfl⟩ := h
  refine ⟨s, ?_⟩
  rw [Tag.revise_eq, Tag.reviseInside_of_idle idle]
  rfl

theorem Tag.RevisesTo.eq_self (h : t.RevisesTo f ancestors u) (here : f.IdleAt (ancestors ++ [t.name]))
    (inside : ∀ more u, f (ancestors ++ t.name :: more) u = pure u) : u = t := by
  obtain ⟨s, hs⟩ := h.outside inside
  rw [here ancestors t rfl] at hs
  exact hs.symm

theorem Tag.RevisesTo.children (h : t.RevisesTo f ancestors u) (idle : f.IdleAt (ancestors ++ [t.name])) :
    List.Forall₂ (Tag.RevisesTo f (ancestors ++ [t.name])) t.children u.children := by
  obtain ⟨s, rfl⟩ := h.inside idle
  exact t.forall₂_children f ancestors s

theorem Tag.RevisesTo.childrenNamed (keeps : f.KeepsNames) (h : t.RevisesTo f ancestors u)
    (idle : f.IdleAt (ancestors ++ [t.name])) (name : String) :
    List.Forall₂ (fun a b => a.name = name ∧ a.RevisesTo f (ancestors ++ [t.name]) b) (t.childrenNamed name)
      (u.childrenNamed name) := by
  refine (List.forall₂_and_left _ _).2 ⟨fun c => Tag.name_of_mem_childrenNamed, ?_⟩
  refine List.rel_filter (fun a b hab => ?_) (h.children idle)
  dsimp only
  rw [hab.name keeps]

/-- The first child of a name becomes the first child of that name. -/
theorem Tag.RevisesTo.child? (keeps : f.KeepsNames) (h : t.RevisesTo f ancestors u)
    (idle : f.IdleAt (ancestors ++ [t.name])) (name : String) :
    Option.Rel (fun a b => a.name = name ∧ a.RevisesTo f (ancestors ++ [t.name]) b)
      (t.child? name) (u.child? name) := by
  rw [← Tag.head?_childrenNamed, ← Tag.head?_childrenNamed]
  have named := h.childrenNamed keeps idle name
  generalize t.childrenNamed name = before at named ⊢
  generalize u.childrenNamed name = after at named ⊢
  cases named with
  | nil => exact .none
  | cons first _ => exact .some first

theorem Tag.RevisesTo.reached (keeps : f.KeepsNames) {names : List String} (h : t.RevisesTo f ancestors u)
    (idle : ∀ k < names.length, f.IdleAt (ancestors ++ t.name :: names.take k)) :
    List.Forall₂ (Tag.RevisesTo f (ancestors ++ (t.name :: names).dropLast)) (t.reached names) (u.reached names) := by
  induction names generalizing ancestors t u with
  | nil =>
    rw [List.dropLast_singleton, List.append_nil]
    exact .cons h .nil
  | cons name names ih =>
    have children := h.childrenNamed keeps (idle 0 (Nat.succ_pos _)) name
    refine List.rel_flatMap children ?_
    rintro c d ⟨hc, hcd⟩
    have below := ih hcd fun k hk => by
      rw [List.append_assoc, hc]
      exact idle (k + 1) (Nat.succ_lt_succ hk)
    rwa [hc, List.append_assoc] at below

end

section

variable {f : Edit}

mutual

/-- An edit that leaves each element inside another alone, and that one too, changes nothing. -/
theorem Tag.revise_of_fixed {ancestors : List String} (t : Tag)
    (h : ∀ names, ∀ u ∈ t.reached names, ∀ s, ((f (ancestors ++ (t.name :: names).dropLast) u).run s).1 = u)
    (s : Supply) : ((t.revise f ancestors).run s).1 = t := by
  obtain ⟨id, leading, markers, name, attributes, content, closing, beforeClose⟩ := t
  have self := h [] _ List.mem_cons_self
  rw [List.dropLast_singleton, List.append_nil] at self
  rw [Tag.revise]
  cases content with
  | none => exact self s
  | some items =>
    have inside : ((Content.reviseAll f (ancestors ++ [name]) items).run s).1 = items := by
      refine Content.reviseAll_of_fixed items (fun c hc names u hu => ?_) s
      rw [List.append_assoc]
      exact h (c.name :: names) u (List.mem_flatMap.2 ⟨c, Tag.mem_childrenNamed rfl hc, hu⟩)
    change ((f ancestors ⟨id, leading, markers, name, attributes,
      some ((Content.reviseAll f (ancestors ++ [name]) items).run s).1, closing, beforeClose⟩).run _).1 = _
    rw [inside]
    exact self _

theorem Content.reviseAll_of_fixed {ancestors : List String} (cs : List Content)
    (h : ∀ c, .tag c ∈ cs → ∀ names, ∀ u ∈ c.reached names, ∀ s,
      ((f (ancestors ++ (c.name :: names).dropLast) u).run s).1 = u)
    (s : Supply) : ((Content.reviseAll f ancestors cs).run s).1 = cs := by
  match cs, h with
  | [], _ => rfl
  | .tag t :: cs, h =>
    have first := t.revise_of_fixed (h t List.mem_cons_self) s
    have rest := Content.reviseAll_of_fixed cs (fun c hc => h c (List.mem_cons_of_mem _ hc))
      ((t.revise f ancestors).run s).2
    exact congrArg₂ (fun t cs => Content.tag t :: cs) first rest
  | .charData _ :: cs, h | .comment _ :: cs, h | .instruction _ :: cs, h =>
    have rest := Content.reviseAll_of_fixed cs (fun c hc => h c (List.mem_cons_of_mem _ hc)) s
    exact congrArg (List.cons _) rest

end

end

end Emend.Markup
