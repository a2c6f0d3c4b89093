import Emend.Markup.Edit

/-! # Elements by address

An address names an element by the indexes of the content items on the way from the root.
-/

namespace Emend.Markup

def Tag.at? (t : Tag) : (address : List Nat) → Option Tag
  | [] => some t
  | i :: rest =>
    match t.items[i]? with
    | some (.tag child) => child.at? rest
    | _ => none

/-- Puts an element at an address by giving new content to the elements above it. -/
def Tag.put (t new : Tag) : (address : List Nat) → Fresh Tag
  | [] => return new
  | i :: rest => do
    match t.items[i]? with
    | some (.tag child) => t.withContent (t.items.set i (.tag (← child.put new rest)))
    | _ => return t

def Document.put (d : Document) (new : Tag) (address : List Nat) : Fresh Document :=
  return { d with root := ← d.root.put new address }

/-- Puts an item in front of the one at `index`, or behind the last one. -/
def Tag.insertItem? (t : Tag) (index : Nat) (c : Content) : Fresh (Option Tag) :=
  if index ≤ t.items.length then some <$> t.withContent (t.items.take index ++ c :: t.items.drop index)
  else return none

def Tag.removeItem? (t : Tag) (index : Nat) : Fresh (Option Tag) :=
  if index < t.items.length then some <$> t.withContent (t.items.eraseIdx index) else return none

def Tag.setItemText? (t : Tag) (index : Nat) (text : String) : Making (Option Tag) := do
  match t.items[index]? with
  | some (.charData d) =>
    let d ← liftExcept (d.withText text)
    some <$> ExceptT.lift (t.withContent (t.items.set index (.charData d)))
  | some (.comment c) =>
    let c ← liftExcept (c.withText text)
    some <$> ExceptT.lift (t.withContent (t.items.set index (.comment c)))
  | _ => return none

end Emend.Markup
