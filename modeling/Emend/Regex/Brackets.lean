import Emend.Regex.Escape

/-! # Classes in brackets

`[…]` with characters, ranges, named classes, nested classes and operations between unions of those.
-/

namespace Emend.Regex

open Text (Rest Step)

def asciiClass? (name : String) : Option AsciiClass :=
  [("alnum", AsciiClass.alnum), ("alpha", .alpha), ("ascii", .ascii), ("blank", .blank), ("cntrl", .cntrl),
    ("digit", .digit), ("graph", .graph), ("lower", .lower), ("print", .print), ("punct", .punct),
    ("space", .space), ("upper", .upper), ("word", .word), ("xdigit", .xdigit)].lookup name

def readAscii? (s : List Char) : Option (Step SetItem s) :=
  match s with
  | ':' :: rest =>
    let negated := rest.head? == some '^'
    let body : Rest rest := if negated then (Rest.all rest).tail else .all rest
    match Text.readTo ':' body.text with
    | none => none
    | some name =>
      if name.rest.head? = some ']' then
        (asciiClass? (String.ofList name.value)).map fun kind =>
          (body.trans name.toRest.tail).step (.ascii kind negated)
      else none
  | _ => none

def readPrimitive (x : Bool) : (s : List Char) → Except Fault (Step Primitive s)
  | [] => .error .badClass
  | '\\' :: s => (readEscape x s).map (·.behind)
  | c :: s => .ok ((Rest.all s).step (.char c false))

def Primitive.toItem : Primitive → Except Fault SetItem
  | char c _ => .ok (.char c)
  | perl kind negated => .ok (.perl kind negated)
  | property query negated => .ok (.property query negated)
  | anchor _ => .error .badClass

def Primitive.toChar : Primitive → Except Fault Char
  | char c _ => .ok c
  | _ => .error .badClass

def peek? (x : Bool) (s : List Char) : Option Char :=
  if x then
    match s.dropWhile Text.isWhiteSpace with
    | '#' :: rest => (rest.dropWhile Text.isWhiteSpace).head?
    | rest => rest.head?
  else s.head?

/-- An item, or a range of characters. A `-` in front of `]` or of another `-` makes no range. -/
def readItem (x : Bool) (s : List Char) : Except Fault (Step SetItem s) :=
  match readPrimitive x s with
  | .error e => .error e
  | .ok first =>
    let first := thenSkip x first
    let item := first.value.toItem.map fun i => first.map fun _ => i
    match first.rest with
    | [] => .error .badClass
    | '-' :: rest =>
      if peek? x rest = some ']' ∨ peek? x rest = some '-' then item
      else
        let start := skipMore x first.toRest.tail
        match readPrimitive x start.text with
        | .error e => .error e
        | .ok second => do
          let a ← first.value.toChar
          let b ← second.value.toChar
          if b < a then .error .badClass
          else .ok ((second.map fun _ => .range a b).widen start.le)
    | _ => item

def leadingDashes (x : Bool) (s : List Char) : Nat × Rest s :=
  match s with
  | '-' :: rest =>
    let (n, r) := leadingDashes x (skip x rest)
    (n + 1, ((skipped x rest).trans r).behind)
  | s => (0, .all s)
termination_by s.length
decreasing_by exact Nat.lt_succ_of_le (length_skip_le x rest)

/-- A class that is being read: what stands before the last operator, and the items behind it, the last one
first. -/
structure OpenSet where
  negated : Bool
  pending : Option (SetOp × SetExpr)
  items : List SetItem

namespace OpenSet

def push (o : OpenSet) (i : SetItem) : OpenSet := { o with items := i :: o.items }

def expr (o : OpenSet) : SetExpr :=
  match o.pending with
  | none => .union o.items.reverse
  | some (kind, left) => .op kind left (.union o.items.reverse)

def operator (o : OpenSet) (kind : SetOp) : OpenSet := { o with pending := some (kind, o.expr), items := [] }

/-- The start of a class behind its bracket. There a `-` counts as itself, and so does `]` if it comes first. -/
def start (x : Bool) (s : List Char) : Except Fault (OpenSet × Rest s) :=
  let front := skipped x s
  let negated := front.text.head? == some '^'
  let body := if negated then skipMore x front.tail else front
  let (dashes, rest) := leadingDashes x body.text
  let rest := body.trans rest
  if rest.text.isEmpty then .error .badClass
  else if dashes = 0 ∧ rest.text.head? = some ']' then
    .ok ({ negated, pending := none, items := [.char ']'] }, skipMore x rest.tail)
  else .ok ({ negated, pending := none, items := List.replicate dashes (.char '-') }, rest)

end OpenSet

/-- The rest of a class; `opened` holds the classes around it, the innermost first. -/
def readClass (x : Bool) (opened : List OpenSet) (o : OpenSet) (s : List Char) :
    Except Fault (Pattern × Rest s) :=
  let onward (t : List Char) (h : t.length < s.length) (r : Except Fault (Pattern × Rest t)) :
      Except Fault (Pattern × Rest s) :=
    r.map fun (p, r) => (p, r.widen (Nat.le_of_lt h))
  match hs : skip x s with
  | [] => .error .badClass
  | '[' :: rest =>
    match readAscii? rest with
    | some item =>
      have h := Nat.lt_trans item.shorter (length_lt_of_skip hs)
      onward item.rest h (readClass x opened (o.push item.value) item.rest)
    | none =>
      match OpenSet.start x rest with
      | .error e => .error e
      | .ok (inner, r) =>
        have h := Nat.lt_of_le_of_lt r.le (length_lt_of_skip hs)
        onward r.text h (readClass x (o :: opened) inner r.text)
  | ']' :: rest =>
    have h := length_lt_of_skip hs
    match opened with
    | [] => .ok (.bracketed o.negated o.expr, ⟨rest, Nat.le_of_lt h⟩)
    | outer :: opened => onward rest h (readClass x opened (outer.push (.bracketed o.negated o.expr)) rest)
  | '&' :: '&' :: rest =>
    have h := Nat.lt_of_succ_lt (length_lt_of_skip hs)
    onward rest h (readClass x opened (o.operator .intersection) rest)
  | '-' :: '-' :: rest =>
    have h := Nat.lt_of_succ_lt (length_lt_of_skip hs)
    onward rest h (readClass x opened (o.operator .difference) rest)
  | '~' :: '~' :: rest =>
    have h := Nat.lt_of_succ_lt (length_lt_of_skip hs)
    onward rest h (readClass x opened (o.operator .symmetricDifference) rest)
  | t =>
    match readItem x t with
    | .error e => .error e
    | .ok item =>
      have h := Nat.lt_of_lt_of_le item.shorter (length_le_of_skip hs)
      onward item.rest h (readClass x opened (o.push item.value) item.rest)
termination_by s.length
decreasing_by all_goals exact h

end Emend.Regex
