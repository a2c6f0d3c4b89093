/-! # Node identity

A node's id says which node it is, wherever it stands in a tree. New ids come from a counter.
-/

namespace Emend

structure NodeId where
  value : UInt64
deriving DecidableEq, Repr, Inhabited

structure Supply where
  next : UInt64 := 1
deriving DecidableEq, Repr, Inhabited

abbrev Fresh := StateM Supply

/-- The next id; the counter wraps at 64 bits. -/
def NodeId.fresh : Fresh NodeId := fun s => (⟨s.next⟩, ⟨s.next + 1⟩)

def NodeId.none : NodeId := ⟨0⟩

def NodeId.display (i : NodeId) : String := s!"#{i.value}"

end Emend
