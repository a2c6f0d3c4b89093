import Emend.Proofs.Markup.Elements
import Emend.NodeId

/-! # Editing every element

An edit of single elements, told the names of the elements around each one, revises a tree: every element is edited
once those inside it are.
-/

namespace Emend.Markup

/-- What becomes of an element inside elements called as the list says, outermost first. -/
abbrev Edit := List String → Tag → Fresh Tag

mutual

def Tag.revise (f : Edit) (ancestors : List String) : Tag → Fresh Tag
  | ⟨id, leading, markers, name, attributes, content, closing, beforeClose⟩ => do
    let content ← Content.reviseBody f (ancestors ++ [name]) content
    f ancestors ⟨id, leading, markers, name, attributes, content, closing, beforeClose⟩

def Content.revise (f : Edit) (ancestors : List String) : Content → Fresh Content
  | .tag t => .tag <$> t.revise f ancestors
  | .charData d => return .charData d
  | .comment c => return .comment c
  | .instruction i => return .instruction i

def Content.reviseBody (f : Edit) (ancestors : List String) : Option (List Content) → Fresh (Option (List Content))
  | some items => some <$> Content.reviseAll f ancestors items
  | none => return none

def Content.reviseAll (f : Edit) (ancestors : List String) : List Content → Fresh (List Content)
  | [] => return []
  | c :: cs => return (← c.revise f ancestors) :: (← Content.reviseAll f ancestors cs)

end

/-- The element itself is left as it is. -/
def Tag.reviseInside (f : Edit) (ancestors : List String) (t : Tag) : Fresh Tag :=
  return { t with content := ← Content.reviseBody f (ancestors ++ [t.name]) t.content }

def Document.revise (f : Edit) (d : Document) : Fresh Document := return { d with root := ← d.root.revise f [] }

theorem Tag.revise_eq (f : Edit) (ancestors : List String) (t : Tag) :
    t.revise f ancestors = t.reviseInside f ancestors >>= f ancestors := by
  cases t
  rw [Tag.revise, Tag.reviseInside, bind_assoc]
  rfl

section

variable {f g : Edit}

/-- The edits do the same to the element, whatever it holds, wherever it stands inside these elements. -/
def Tag.Agree (f g : Edit) (ancestors : List String) (t : Tag) : Prop :=
  ∀ more content, f (ancestors ++ more) { t with content } = g (ancestors ++ more) { t with content }

theorem Tag.Agree.inside {ancestors : List String} {t : Tag} (h : t.Agree f g ancestors) (name : String) :
    t.Agree f g (ancestors ++ [name]) := by
  intro more content
  rw [List.append_assoc]
  exact h ([name] ++ more) content

theorem Tag.Agree.here {ancestors : List String} {t : Tag} (h : t.Agree f g ancestors)
    (content : Option (List Content)) :
    f ancestors { t with content } = g ancestors { t with content } := by
  have same := h [] content
  rwa [List.append_nil] at same

mutual

theorem Tag.revise_congr {ancestors : List String} (t : Tag) (h : ∀ u ∈ t.elements, u.Agree f g ancestors) :
    t.revise f ancestors = t.revise g ancestors := by
  obtain ⟨id, leading, markers, name, attributes, content, closing, beforeClose⟩ := t
  rw [Tag.elements, List.forall_mem_cons] at h
  rw [Tag.revise, Tag.revise, Content.reviseBody_congr content fun u hu => (h.2 u hu).inside name]
  exact bind_congr fun content => h.1.here content

theorem Content.revise_congr {ancestors : List String} (c : Content) (h : ∀ u ∈ c.elements, u.Agree f g ancestors) :
    c.revise f ancestors = c.revise g ancestors := by
  cases c with
  | tag t => rw [Content.revise, Content.revise, t.revise_congr h]
  | charData _ | comment _ | instruction _ => rfl

theorem Content.reviseBody_congr {ancestors : List String} (content : Option (List Content))
    (h : ∀ u ∈ Content.elementsBody content, u.Agree f g ancestors) :
    Content.reviseBody f ancestors content = Content.reviseBody g ancestors content := by
  cases content with
  | none => rfl
  | some items => rw [Content.reviseBody, Content.reviseBody, Content.reviseAll_congr items h]

theorem Content.reviseAll_congr {ancestors : List String} (cs : List Content)
    (h : ∀ u ∈ Content.elementsAll cs, u.Agree f g ancestors) :
    Content.reviseAll f ancestors cs = Content.reviseAll g ancestors cs := by
  cases cs with
  | nil => rfl
  | cons c cs =>
    rw [Content.reviseAll, Content.reviseAll, c.revise_congr fun u hu => h u (List.mem_append_left _ hu),
      Content.reviseAll_congr cs fun u hu => h u (List.mem_append_right _ hu)]

end

def Edit.idle : Edit := fun _ t => return t

mutual

theorem Tag.revise_idle (ancestors : List String) (t : Tag) : t.revise .idle ancestors = return t := by
  obtain ⟨id, leading, markers, name, attributes, content, closing, beforeClose⟩ := t
  rw [Tag.revise, Content.reviseBody_idle _ content]
  rfl

theorem Content.reviseBody_idle (ancestors : List String) (content : Option (List Content)) :
    Content.reviseBody .idle ancestors content = return content := by
  cases content with
  | none => rfl
  | some items =>
    rw [Content.reviseBody, Content.reviseAll_idle ancestors items]
    rfl

theorem Content.reviseAll_idle (ancestors : List String) (cs : List Content) :
    Content.reviseAll .idle ancestors cs = return cs := by
  match cs with
  | [] => rfl
  | .tag t :: cs =>
    rw [Content.reviseAll, Content.revise, t.revise_idle ancestors, Content.reviseAll_idle ancestors cs]
    rfl
  | .charData _ :: cs | .comment _ :: cs | .instruction _ :: cs =>
    rw [Content.reviseAll, Content.reviseAll_idle ancestors cs]
    rfl

end

/-- An edit that leaves everything inside an element alone leaves its content alone. -/
theorem Tag.reviseInside_of_idle {ancestors : List String} {t : Tag}
    (h : ∀ more u, f (ancestors ++ t.name :: more) u = return u) :
    t.reviseInside f ancestors = return t := by
  rw [Tag.reviseInside, Content.reviseBody_congr (g := .idle), Content.reviseBody_idle]
  · cases t
    rfl
  · intro u _ more content
    rw [List.append_assoc]
    exact h more { u with content }

end

end Emend.Markup
