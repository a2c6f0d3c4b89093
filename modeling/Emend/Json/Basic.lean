import Emend.Decimal

/-! # JSON values

Values as they were written: fields keep their order and may repeat, and numbers are exact.
-/

namespace Emend

inductive Json where
  | null
  | bool (b : Bool)
  | int (n : Int)
  | real (d : Decimal)
  | string (s : String)
  | array (items : List Json)
  | object (fields : List (String × Json))
deriving Inhabited

namespace Json

def nat (n : Nat) : Json := .int n

def ofInt? (n : Int) : Option Json :=
  if -0x8000000000000000 ≤ n ∧ n ≤ 0xffffffffffffffff then some (.int n) else none

def ofOption (s : Option String) : Json := match s with
  | some s => .string s
  | none => .null

mutual

def nesting : Json → Nat
  | array items => nestingAll items + 1
  | object fields => nestingFields fields + 1
  | _ => 0

def nestingAll : List Json → Nat
  | [] => 0
  | j :: js => max j.nesting (nestingAll js)

def nestingFields : List (String × Json) → Nat
  | [] => 0
  | (_, j) :: fs => max j.nesting (nestingFields fs)

end

mutual

def inRange : Json → Bool
  | real d => d.isFinite
  | array items => inRangeAll items
  | object fields => inRangeFields fields
  | _ => true

def inRangeAll : List Json → Bool
  | [] => true
  | j :: js => j.inRange && inRangeAll js

def inRangeFields : List (String × Json) → Bool
  | [] => true
  | (_, j) :: fs => j.inRange && inRangeFields fs

end

def field? (key : String) : Json → Option Json
  | object fields => fields.lookup key
  | _ => none

/-- Puts a value under its key: in place of the one there, or last. -/
def putField (key : String) (j : Json) : List (String × Json) → List (String × Json)
  | [] => [(key, j)]
  | (k, old) :: fields => if k = key then (k, j) :: fields else (k, old) :: putField key j fields

mutual

/-- No key twice: the last value stays, in the place of the first. -/
def merged : Json → Json
  | array items => array (mergedAll items)
  | object fields => object (mergedFields [] fields)
  | j => j

def mergedAll : List Json → List Json
  | [] => []
  | j :: js => j.merged :: mergedAll js

def mergedFields (before : List (String × Json)) : List (String × Json) → List (String × Json)
  | [] => before
  | (k, j) :: fs => mergedFields (putField k j.merged before) fs

end

end Json
end Emend
