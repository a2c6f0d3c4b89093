import Emend.Yaml.Document

/-! # Values

What scalars are when nobody asks for a type: null, truth values, numbers or text. Documents become JSON
values, with the nodes in place that aliases stand for.
-/

namespace Emend.Yaml

def isNull (s : String) : Bool := ["null", "Null", "NULL", "~"].contains s

def bool? (s : String) : Option Bool :=
  if ["true", "True", "TRUE"].contains s then some true
  else if ["false", "False", "FALSE"].contains s then some false
  else none

def digits? (base : Nat) (s : List Char) : Option Nat :=
  if s.isEmpty then none
  else s.foldlM (fun n c => do
    let d ← Json.hexValue? c
    if d < base then some (n * base + d) else none) 0

def based? (s : List Char) : Option (Nat × List Char) :=
  match s with
  | '0' :: 'x' :: s => some (16, s)
  | '0' :: 'o' :: s => some (8, s)
  | '0' :: 'b' :: s => some (2, s)
  | _ => none

def natural? (s : List Char) : Option Nat :=
  match based? s with
  | some (base, s) => digits? base s
  | none => digits? 10 s

def unsign (s : List Char) : List Char :=
  match s with
  | '-' :: s | '+' :: s => s
  | s => s

/-- Digits that begin with a needless zero are text. -/
def isPadded (s : List Char) : Bool :=
  match unsign s with
  | '0' :: c :: s => (c :: s).all Json.isDigit
  | _ => false

def unsigned? (s : List Char) : Option Nat :=
  if isPadded s then none
  else
    match s with
    | '+' :: s => natural? s
    | s => natural? s

def integer? (s : List Char) : Option Int :=
  match unsigned? s with
  | some n => if n < Nat.pow 2 128 then some n else none
  | none =>
    match s with
    | '-' :: rest =>
      if isPadded s then none
      else
        match natural? rest with
        | some n => if n ≤ Nat.pow 2 127 then some (-n) else none
        | none => none
    | _ => none

def decimal? (negative : Bool) (s : List Char) : Option Decimal :=
  let whole := s.takeWhile Json.isDigit
  let rest := s.dropWhile Json.isDigit
  let (frac, rest) := match rest with
    | '.' :: r => (r.takeWhile Json.isDigit, r.dropWhile Json.isDigit)
    | r => ([], r)
  if whole.isEmpty && frac.isEmpty then none
  else
    match Json.exponent? rest with
    | some (exponent, []) => some ⟨negative, Json.ofDigits (whole ++ frac), exponent - frac.length⟩
    | _ => none

/-- A number that double precision holds; otherwise the name of one that has no JSON form. -/
def real? (s : List Char) : Option Json :=
  let word := String.ofList s
  if [".inf", ".Inf", ".INF", "+.inf", "+.Inf", "+.INF", "-.inf", "-.Inf", "-.INF", ".nan", ".NaN",
      ".NAN"].contains word then
    some .null
  else
    let read := match s with
      | '-' :: s => decimal? true s
      | '+' :: s => decimal? false s
      | s => decimal? false s
    match read with
    | some d => if d.isFinite then some (.real d) else none
    | none => none

def coreTag (name : String) : String := "tag:yaml.org,2002:" ++ name

/-- A tag of the writer's own, for a type that JSON does not have. -/
def isLocal (tag : Option String) : Bool := tag.any fun t => t.toList.head? == some '!'

/-- The value of a plain scalar. Integers that need more than 64 bits are refused. -/
def plainValue (s : String) : Option Json :=
  if s.isEmpty || isNull s then some .null
  else
    match bool? s, integer? s.toList with
    | some b, _ => some (.bool b)
    | none, some n => Json.ofInt? n
    | none, none =>
      match if isPadded s.toList then none else real? s.toList with
      | some j => some j
      | none => some (.string s)

def Scalar.value? (s : Scalar) : Option Json :=
  match s.tag with
  | none => if s.style = .plain then plainValue s.text else some (.string s.text)
  | some t =>
    if isLocal t then none
    else if t = coreTag "bool" then (bool? s.text).map .bool
    else if t = coreTag "int" then (integer? s.text.toList).bind Json.ofInt?
    else if t = coreTag "float" then real? s.text.toList
    else if t = coreTag "null" then if isNull s.text then some .null else none
    else some (.string s.text)

/-- How many aliases may still be followed. -/
abbrev Expanding := StateT Nat Option

namespace Document

def resolve (d : Document) (n : Node) : Expanding Node := do
  match n with
  | .reference number =>
    match ← get with
    | 0 => failure
    | left + 1 => do
      set left
      match d.numbered.lookup number with
      | some n => return n
      | none => failure
  | n => return n

/-- Only scalars are keys, and all of them as text. -/
def keyText (d : Document) (n : Node) : Expanding String := do
  match ← d.resolve n with
  | .scalar s => return s.text
  | _ => failure

def toJson (d : Document) (depth : Nat) (n : Node) : Expanding Json := do
  match ← d.resolve n with
  | .reference _ => failure
  | .scalar s => s.value?.elim failure pure
  | .sequence tag items =>
    match depth with
    | 0 => failure
    | depth + 1 => if isLocal tag then failure else .array <$> items.mapM (d.toJson depth)
  | .mapping tag entries =>
    match depth with
    | 0 => failure
    | depth + 1 =>
      if isLocal tag then failure
      else .object <$> entries.foldlM (fun fields (key, value) => do
        let key ← d.keyText key
        return Json.putField key (← d.toJson depth value) fields) []

def maxDepth : Nat := 128

/-- Runs over a document in which a hundred aliases may be followed for each part of its writing. -/
def expand {α : Type} (d : Document) (x : Expanding α) : Option α := (x.run (100 * d.root.size)).map (·.1)

end Document

def values? (s : String) : Option (List Json) := do
  (← documents? s).mapM fun d => d.expand (d.toJson Document.maxDepth d.root)

end Emend.Yaml
