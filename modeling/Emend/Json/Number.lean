import Emend.Json.Basic

/-! # Numbers in JSON text

Integers are exact as far as 64 bits hold them. Any other number is a double: its leading digits, as many as
64 bits hold, scaled by a power of ten with the precision of doubles.
-/

namespace Emend.Json

def isDigit (c : Char) : Bool := '0' ≤ c && c ≤ '9'

def digitValue (c : Char) : Nat := c.toNat - 48

def ofDigits (ds : List Char) : Nat := ds.foldl (fun n c => n * 10 + digitValue c) 0

def fraction? (s : List Char) : Option (List Char × List Char) :=
  match s with
  | '.' :: r => if (r.takeWhile isDigit).isEmpty then none else some (r.takeWhile isDigit, r.dropWhile isDigit)
  | _ => some ([], s)

def exponent? (s : List Char) : Option (Int × List Char) :=
  let digits (sign : Int) (r : List Char) : Option (Int × List Char) :=
    if (r.takeWhile isDigit).isEmpty then none
    else some (sign * ofDigits (r.takeWhile isDigit), r.dropWhile isDigit)
  match s with
  | 'e' :: '-' :: r | 'E' :: '-' :: r => digits (-1) r
  | 'e' :: '+' :: r | 'E' :: '+' :: r => digits 1 r
  | 'e' :: r | 'E' :: r => digits 1 r
  | _ => some (0, s)

def maxScale : Nat := 308

def powerOfTen (k : Nat) : Double := .nearest (tenTo k) 1

/-- The quotient by `10 ^ n` in at most `steps` steps; after three, nothing is left of 64 bits. -/
def scaleDown : (steps : Nat) → Double → (n : Nat) → Double
  | 0, _, _ => .zero
  | steps + 1, x, n =>
    if n ≤ maxScale then x.div (powerOfTen n) else scaleDown steps (x.div (powerOfTen maxScale)) (n - maxScale)

def scale? (x : Double) (k : Int) : Option Double :=
  if x.significand = 0 then some x
  else if k < 0 then some (scaleDown 3 x (-k).toNat)
  else if maxScale < k.toNat then none
  else
    let y := x.mul (powerOfTen k.toNat)
    if y.isFinite then some y else none

/-- Leading digits and the power of ten behind them; `full` if a digit did not fit any more. -/
structure Leading where
  digits : Nat := 0
  exponent : Int := 0
  full : Bool := false

/-- One more digit: taken if 64 bits hold it with those before, and left out otherwise. The exponent changes
by `taken` or `left`. -/
def Leading.push (taken left : Int) (l : Leading) (c : Char) : Leading :=
  let more := l.digits * 10 + digitValue c
  if l.full || 0xffffffffffffffff < more then { l with exponent := l.exponent + left, full := true }
  else { l with digits := more, exponent := l.exponent + taken }

def Leading.ofDigits (whole fraction : List Char) : Leading :=
  let l := whole.foldl (Leading.push 0 1) {}
  fraction.foldl (Leading.push (-1) 0) { l with full := false }

/-- A number that is no integer of 64 bits. What lies out of range is read as a number that does. -/
def ofParts (negative : Bool) (whole fraction : List Char) (exponent : Int) : Json :=
  let l := Leading.ofDigits whole fraction
  match scale? (.nearest l.digits 1) (l.exponent + exponent) with
  | some x => .real (.ofDouble negative x)
  | none => .real ⟨negative, 1, maxScale + 1⟩

/-- An integer; there is no negative zero of 64 bits. -/
def ofWhole (negative : Bool) (whole : List Char) : Json :=
  let n := ofDigits whole
  let j? := if negative then if n = 0 then none else ofInt? (-n) else ofInt? n
  j?.getD (ofParts negative whole [] 0)

def unsigned? (negative : Bool) (s : List Char) : Option (Json × List Char) := do
  let whole := s.takeWhile isDigit
  let r := s.dropWhile isDigit
  if whole.isEmpty || (whole.head? == some '0' && whole.length > 1) then none
  else
    let (fraction, r₁) ← fraction? r
    let (exponent, r₂) ← exponent? r₁
    if r₂.length = r.length then return (ofWhole negative whole, r)
    else return (ofParts negative whole fraction exponent, r₂)

def number? (s : List Char) : Option (Json × List Char) :=
  match s with
  | '-' :: r => unsigned? true r
  | _ => unsigned? false s

end Emend.Json
