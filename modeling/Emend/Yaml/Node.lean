import Emend.Yaml.Token

/-! # Nodes

The tree of a document. An alias stands for the node that carries its number.
-/

namespace Emend.Yaml

/-- A scalar as it was written: what it is depends on who asks. -/
structure Scalar where
  text : String
  style : Style
  tag : Option String := none
deriving DecidableEq

inductive Node where
  | reference (number : Nat)
  | scalar (s : Scalar)
  | sequence (tag : Option String) (items : List Node)
  | mapping (tag : Option String) (entries : List (Node × Node))
deriving Inhabited

namespace Node

def empty (tag : Option String := none) : Node := .scalar { text := "", style := .plain, tag }

mutual

/-- How many parts the writing of a node has: one for a scalar or an alias, two for a collection and those
of its nodes. -/
def size : Node → Nat
  | reference _ | scalar _ => 1
  | sequence _ items => sizeAll items + 2
  | mapping _ entries => sizeEntries entries + 2

def sizeAll : List Node → Nat
  | [] => 0
  | n :: ns => n.size + sizeAll ns

def sizeEntries : List (Node × Node) → Nat
  | [] => 0
  | (k, v) :: es => k.size + v.size + sizeEntries es

end

end Node

structure Document where
  root : Node
  numbered : List (Nat × Node)

end Emend.Yaml
