import Emend.Text.Step

/-! # References and escaping

Text in markup writes some characters as references: `&amp;`, `&#65;`, `&#x41;`. Escaping writes them,
`unescape` reads them.
-/

namespace Emend.Markup

inductive Quote where
  | double
  | single
deriving DecidableEq, Repr, Inhabited

def Quote.char : Quote → Char
  | double => '"'
  | single => '\''

def escapeTextChar (c : Char) : List Char :=
  if c = '&' then "&amp;".toList
  else if c = '<' then "&lt;".toList
  else if c = '>' then "&gt;".toList
  else [c]

def escapeText (s : String) : String := String.ofList (s.toList.flatMap escapeTextChar)

def escapeAttributeChar (q : Quote) (c : Char) : List Char :=
  if c = '&' then "&amp;".toList
  else if c = '<' then "&lt;".toList
  else if c = '"' ∧ q = .double then "&quot;".toList
  else if c = '\'' ∧ q = .single then "&apos;".toList
  else [c]

def escapeAttribute (q : Quote) (s : String) : String :=
  String.ofList (s.toList.flatMap (escapeAttributeChar q))

def digit? (base : Nat) (c : Char) : Option Nat :=
  let n := c.toNat
  let v :=
    if '0' ≤ c ∧ c ≤ '9' then some (n - 48)
    else if 'a' ≤ c ∧ c ≤ 'f' then some (n - 87)
    else if 'A' ≤ c ∧ c ≤ 'F' then some (n - 55)
    else none
  v.filter (· < base)

/-- A number written in the given base with at least one digit; one plus sign may stand before it. -/
def number? (base : Nat) (s : List Char) : Option Nat :=
  let digits := match s with
    | '+' :: r => r
    | s => s
  if digits = [] then none
  else digits.foldl (fun acc c => do return (← acc) * base + (← digit? base c)) (some 0)

/-- The character with the given code, unless it is a surrogate or too large. -/
def scalar? (n : Nat) : Option Char :=
  if n.isValidChar then some (Char.ofNat n) else none

def reference? (name : List Char) : Option Char :=
  if name = "amp".toList then some '&'
  else if name = "lt".toList then some '<'
  else if name = "gt".toList then some '>'
  else if name = "quot".toList then some '"'
  else if name = "apos".toList then some '\''
  else match name with
    | '#' :: 'x' :: hex => number? 16 hex >>= scalar?
    | '#' :: 'X' :: hex => number? 16 hex >>= scalar?
    | '#' :: dec => number? 10 dec >>= scalar?
    | _ => none

theorem length_lt_of_breakSemicolon {c : Char} {s name rest : List Char}
    (h : Text.breakOn? [';'] s = some (name, rest)) : rest.length < (c :: s).length :=
  Nat.lt_succ_of_lt (Text.length_lt_of_breakOn? h (List.cons_ne_nil _ _))

/-- References decoded. From each `&`, the text up to the next `;` is one reference; one that stands for
nothing is kept as written. -/
def unescapeChars : List Char → List Char
  | [] => []
  | c :: s =>
    if c = '&' then
      match h : Text.breakOn? [';'] s with
      | none => c :: s
      | some (name, rest) =>
        have : rest.length < (c :: s).length := length_lt_of_breakSemicolon h
        match reference? name with
        | some d => d :: unescapeChars rest
        | none => '&' :: (name ++ ';' :: unescapeChars rest)
    else c :: unescapeChars s
termination_by s => s.length
decreasing_by
  · exact this
  · exact this
  · exact Nat.lt_succ_self _

def unescape (s : String) : String := String.ofList (unescapeChars s.toList)

end Emend.Markup
