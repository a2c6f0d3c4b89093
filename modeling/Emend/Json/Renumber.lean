import Emend.Json.Basic

/-! # Numbering ids anew

Every number under the key `id` is replaced by 1, 2, 3… in the order of first appearance. The values of one
numbering share it, so that the same id gets the same number in all of them.
-/

namespace Emend.Json

structure Numbers where
  given : List (Int × Nat) := []
  next : Nat := 1

abbrev Numbering := StateM Numbers

def numberFor (id : Int) : Numbering Nat :=
  modifyGet fun s =>
    match s.given.lookup id with
    | some n => (n, s)
    | none => (s.next, { given := (id, s.next) :: s.given, next := s.next + 1 })

mutual

def renumber : Json → Numbering Json
  | array items => do return array (← renumberAll items)
  | object fields => do return object (← renumberFields fields)
  | j => return j

def renumberAll : List Json → Numbering (List Json)
  | [] => return []
  | j :: js => do return (← j.renumber) :: (← renumberAll js)

def renumberFields : List (String × Json) → Numbering (List (String × Json))
  | [] => return []
  | (key, j) :: fields => do
    let new ← match key, j with
      | "id", int id => do pure (nat (← numberFor id))
      | _, j => j.renumber
    return (key, new) :: (← renumberFields fields)

end

def renumbered (j : Json) : Json := (j.renumber.run {}).1

end Emend.Json
