import Emend.Markup.Traversal
import Emend.Proofs.Markup.Anonymous

/-! # Elements at their places -/

namespace Emend.Markup

mutual

/-- The element at `place` and all elements inside it, each with its place. -/
def Tag.placed (place : Place) : Tag → List (Place × Tag)
  | ⟨id, leading, markers, name, attributes, content, closing, beforeClose⟩ =>
    (place, ⟨id, leading, markers, name, attributes, content, closing, beforeClose⟩) ::
      Content.placedBody (place.enter name) content

def Content.placed (place : Place) : Content → List (Place × Tag)
  | .tag t => t.placed place
  | .charData _ | .comment _ | .instruction _ => []

def Content.placedBody (place : Place) : Option (List Content) → List (Place × Tag)
  | some items => Content.placedAll place items
  | none => []

def Content.placedAll (place : Place) : List Content → List (Place × Tag)
  | [] => []
  | c :: cs => c.placed place ++ Content.placedAll place cs

end

def Document.placed (d : Document) : List (Place × Tag) := d.root.placed (Visitor.placeOf d)

theorem Tag.placed_eq (place : Place) (t : Tag) :
    t.placed place = (place, t) :: Content.placedBody (place.enter t.name) t.content := by
  cases t
  rfl

mutual

theorem Tag.placed_anonymous (place : Place) (t : Tag) :
    t.anonymous.placed place = (t.placed place).map fun x => (x.1, x.2.anonymous) := by
  obtain ⟨id, leading, markers, name, attributes, content, closing, beforeClose⟩ := t
  cases content with
  | none => rfl
  | some items => exact congrArg (List.cons _) (Content.placedAll_anonymousAll (place.enter name) items)

theorem Content.placedAll_anonymousAll (place : Place) (cs : List Content) :
    Content.placedAll place (Content.anonymousAll cs) =
      (Content.placedAll place cs).map fun x => (x.1, x.2.anonymous) := by
  match cs with
  | [] => rfl
  | .tag t :: cs =>
    rw [Content.anonymousAll, Content.anonymous, Content.placedAll, Content.placedAll, Content.placed, Content.placed,
      t.placed_anonymous, Content.placedAll_anonymousAll place cs, List.map_append]
  | .charData _ :: cs | .comment _ :: cs | .instruction _ :: cs => exact Content.placedAll_anonymousAll place cs

end

theorem Document.placed_anonymous (d : Document) : d.anonymous.placed = d.placed.map fun x => (x.1, x.2.anonymous) :=
  d.root.placed_anonymous (Visitor.placeOf d)

end Emend.Markup
