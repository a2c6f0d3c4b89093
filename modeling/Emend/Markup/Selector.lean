import Emend.Markup.Traversal

/-! # Selecting nodes

A selector names nodes by what they are and where they stand; what it leaves out does not matter.
-/

namespace Emend.Markup

structure Selector where
  node : String
  name : Option String := none
  parent : Option String := none
  inside : Option String := none
  file : Option String := none
  path : Option TagPath := none

/-- Whether a node of the given sort and name is selected; only elements are on a path. -/
def Selector.selects (s : Selector) (node name : String) (place : Place) (tag : Option Tag) : Bool :=
  s.node == node && s.name.all (· == name) && s.parent.all (place.parentName? == some ·) &&
    s.inside.all place.isInside && s.file.all (Text.occursIn · place.path.text) &&
    s.path.all fun p => tag.any (place.selectedBy p)

end Emend.Markup
