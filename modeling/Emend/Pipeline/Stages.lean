import Emend.Error
import Emend.Recipe

/-! # Stages

A forest of recipes becomes a list of stages: each recipe, then those after it. On a chain from a root no
name may come twice, and chains are limited.
-/

namespace Emend

/-- One recipe's turn over all files; `chain` holds the names from the root to the recipe. -/
structure Stage where
  name : String
  visitor : Option SourceVisitor
  chain : List String

inductive ChainFault where
  | repeated (chain : List String) (name : String)
  | tooLong (name : String)
deriving DecidableEq

namespace Stage

def maxChain : Nat := 64

/-- The names from a root to the recipe at hand, outermost first, and the stages so far. -/
structure Layout where
  chain : List String := []
  stages : List Stage := []

mutual

/-- Adds a recipe as a stage, then those after it. It is on the chain meanwhile. -/
def layOut : Recipe → StateT Layout (Except ChainFault) Unit
  | ⟨name, _, _, visitor, next⟩ => do
    let { chain, .. } ← get
    if chain.contains name then throw (.repeated chain name)
    if maxChain ≤ chain.length then throw (.tooLong name)
    modify fun l =>
      let chain := l.chain ++ [name]
      { chain, stages := l.stages ++ [⟨name, visitor, chain⟩] }
    layOutAll next
    modify fun l => { l with chain := l.chain.dropLast }

def layOutAll : List Recipe → StateT Layout (Except ChainFault) Unit
  | [] => return
  | r :: rs => do
    layOut r
    layOutAll rs

end

end Stage

def ChainFault.message : ChainFault → String
  | repeated chain name => "Cyclic recipe chain: " ++ " -> ".intercalate (chain ++ [name])
  | tooLong name => s!"Recipe chain deeper than {Stage.maxChain} at '{name}'"

end Emend
