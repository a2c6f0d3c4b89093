import Emend.Source

/-! # The elements of a tree

All elements of a tree in the order in which they begin, and how deep they nest. What holds of every element
is stated as a property of single elements.
-/

namespace Emend
namespace Markup

mutual

/-- The element and all elements inside it. -/
def Tag.elements : Tag → List Tag
  | ⟨id, leading, markers, name, attributes, content, closing, beforeClose⟩ =>
    ⟨id, leading, markers, name, attributes, content, closing, beforeClose⟩ :: Content.elementsBody content

def Content.elements : Content → List Tag
  | .tag t => t.elements
  | .charData _ | .comment _ | .instruction _ => []

def Content.elementsBody : Option (List Content) → List Tag
  | some items => Content.elementsAll items
  | none => []

def Content.elementsAll : List Content → List Tag
  | [] => []
  | c :: cs => c.elements ++ Content.elementsAll cs

end

mutual

/-- How many elements stand one inside the other, this one included. -/
def Tag.depth : Tag → Nat
  | ⟨_, _, _, _, _, content, _, _⟩ => Content.depthBody content + 1

def Content.depth : Content → Nat
  | .tag t => t.depth
  | .charData _ | .comment _ | .instruction _ => 0

def Content.depthBody : Option (List Content) → Nat
  | some items => Content.depthAll items
  | none => 0

def Content.depthAll : List Content → Nat
  | [] => 0
  | c :: cs => max c.depth (Content.depthAll cs)

end

theorem Tag.depth_pos (t : Tag) : 0 < t.depth := by
  cases t
  rw [Tag.depth]
  exact Nat.succ_pos _

theorem Tag.mem_elements_self (t : Tag) : t ∈ t.elements := by
  cases t
  rw [Tag.elements]
  exact List.mem_cons_self

theorem Content.elementsAll_append (cs ds : List Content) :
    Content.elementsAll (cs ++ ds) = Content.elementsAll cs ++ Content.elementsAll ds := by
  induction cs with
  | nil => rfl
  | cons c cs ih => rw [List.cons_append, Content.elementsAll, Content.elementsAll, ih, List.append_assoc]

theorem Content.depthAll_append (cs ds : List Content) :
    Content.depthAll (cs ++ ds) = max (Content.depthAll cs) (Content.depthAll ds) := by
  induction cs with
  | nil => rw [List.nil_append, Content.depthAll, Nat.zero_max]
  | cons c cs ih => rw [List.cons_append, Content.depthAll, Content.depthAll, ih, Nat.max_assoc]

theorem Content.mem_elementsAll_iff {u : Tag} {items : List Content} :
    u ∈ Content.elementsAll items ↔ ∃ c ∈ items, u ∈ c.elements := by
  induction items with
  | nil => simp [Content.elementsAll]
  | cons c cs ih => simp [Content.elementsAll, ih]

theorem Content.mem_elementsBody_iff {u : Tag} {content : Option (List Content)} :
    u ∈ Content.elementsBody content ↔ ∃ items ∈ content, u ∈ Content.elementsAll items := by
  cases content <;> simp [Content.elementsBody]

theorem Tag.mem_elements_iff {t u : Tag} :
    u ∈ t.elements ↔ u = t ∨ ∃ items ∈ t.content, u ∈ Content.elementsAll items := by
  obtain ⟨_, _, _, _, _, content, _, _⟩ := t
  rw [Tag.elements, List.mem_cons]
  cases content <;> simp [Content.elementsBody]

mutual

/-- What stands inside an element of a tree stands in the tree. -/
theorem Tag.elements_subset {u : Tag} (t : Tag) (h : u ∈ t.elements) : u.elements ⊆ t.elements ∧ u.depth ≤ t.depth := by
  obtain ⟨_, _, _, _, _, content, _, _⟩ := t
  rw [Tag.elements, List.mem_cons] at h
  rcases h with rfl | h
  · exact ⟨List.Subset.refl _, Nat.le_refl _⟩
  · cases content with
    | none => cases h
    | some items =>
      obtain ⟨inside, depth⟩ := Content.elementsAll_subset items h
      exact ⟨List.subset_cons_of_subset _ inside, Nat.le_succ_of_le depth⟩

theorem Content.elements_subset {u : Tag} (c : Content) (h : u ∈ c.elements) :
    u.elements ⊆ c.elements ∧ u.depth ≤ c.depth := by
  cases c with
  | tag t => exact Tag.elements_subset t h
  | charData _ | comment _ | instruction _ => cases h

theorem Content.elementsAll_subset {u : Tag} (cs : List Content) (h : u ∈ Content.elementsAll cs) :
    u.elements ⊆ Content.elementsAll cs ∧ u.depth ≤ Content.depthAll cs := by
  cases cs with
  | nil => cases h
  | cons c cs =>
    rw [Content.elementsAll, List.mem_append] at h
    rw [Content.elementsAll, Content.depthAll]
    rcases h with h | h
    · obtain ⟨inside, depth⟩ := Content.elements_subset c h
      exact ⟨List.subset_append_of_subset_left _ inside, Nat.le_trans depth (Nat.le_max_left _ _)⟩
    · obtain ⟨inside, depth⟩ := Content.elementsAll_subset cs h
      exact ⟨List.subset_append_of_subset_right _ inside, Nat.le_trans depth (Nat.le_max_right _ _)⟩

end

theorem Tag.elementsBody_subset {t u : Tag} (h : u ∈ t.elements) :
    Content.elementsBody u.content ⊆ Content.elementsBody t.content := by
  obtain rfl | ⟨items, hi, hu⟩ := Tag.mem_elements_iff.1 h
  · exact List.Subset.refl _
  · intro v hv
    have inside := (Content.elementsAll_subset items hu).1
    exact Content.mem_elementsBody_iff.2 ⟨items, hi,
      inside (Tag.mem_elements_iff.2 (.inr (Content.mem_elementsBody_iff.1 hv)))⟩

end Markup

/-- How deep the elements of a source file nest; plain text has none. -/
def Source.depth : Source → Nat
  | markup d => d.root.depth
  | text _ => 0

end Emend
