import Emend.Double

/-! # Decimals

Numbers in decimal notation, exactly as written, and their text after rounding to double precision: the
fewest digits that read back as the same double.
-/

namespace Emend

/-- A number in decimal notation: `digits · 10 ^ exponent`, with its sign. -/
structure Decimal where
  negative : Bool
  digits : Nat
  exponent : Int
deriving DecidableEq, Repr, Inhabited

namespace Decimal

def digitCount (n : Nat) : Nat := (Nat.toDigits 10 n).length

/-- Rounding to double precision gives a finite number: the value is below `2 ^ 1024 - 2 ^ 970`. -/
def isFinite (d : Decimal) : Bool :=
  let limit := twoTo 1024 - twoTo 970
  if d.digits = 0 then true
  else if d.exponent > 400 then false
  else if d.exponent ≥ 0 then d.digits * tenTo d.exponent.toNat < limit
  else if (-d.exponent).toNat > digitCount d.digits then true
  else d.digits < limit * tenTo (-d.exponent).toNat

/-- The magnitude rounded to double precision, if it lies in its range. What lies far below the least double is
zero. -/
def double (d : Decimal) : Double :=
  if d.digits = 0 ∨ !d.isFinite ∨ d.exponent + digitCount d.digits < -400 then .zero
  else if 0 ≤ d.exponent then .nearest (d.digits * tenTo d.exponent.toNat) 1
  else .nearest d.digits (tenTo (-d.exponent).toNat)

def leadingExponent (num den : Nat) : Int :=
  if den ≤ num then digitCount (num / den) - 1
  else
    let guess := digitCount (den / num)
    if den ≤ num * tenTo (guess - 1) then 1 - guess else -guess

/-- The decimal on the grid `10 ^ k` next to `m · 2 ^ e` that still rounds to it, if one does; of two equally
close the even one. -/
def onGrid? (m : Nat) (e k : Int) : Option Nat :=
  -- all quantities in units of `2 ^ (e - 2) / scale`
  let scale := (if k < 0 then tenTo (-k).toNat else 1) * (if e < 2 then twoTo (2 - e).toNat else 1)
  let unit := if e < 2 then 1 else twoTo (e - 2).toNat
  let factor := if k < 0 then tenTo (-k).toNat else 1
  let value := 4 * m * unit * factor
  let high := (4 * m + 2) * unit * factor
  let low := (if m = twoTo 52 ∧ -1074 < e then 4 * m - 1 else 4 * m - 2) * unit * factor
  let step := scale / factor * (if k < 0 then 1 else tenTo k.toNat)
  let inside (c : Nat) := if m % 2 = 0 then low ≤ c * step ∧ c * step ≤ high else low < c * step ∧ c * step < high
  let below := value / step
  if inside below then
    let down := value - below * step
    let up := (below + 1) * step - value
    if inside (below + 1) ∧ (up < down ∨ up = down ∧ below % 2 = 1) then some (below + 1) else some below
  else if inside (below + 1) then some (below + 1)
  else none

/-- The fewest digits, up to seventeen, that round to `m · 2 ^ e`, and the exponent of the last one. -/
def shortest (m : Nat) (e : Int) : Nat × Int :=
  let top := if e < 0 then leadingExponent m (twoTo (-e).toNat) else leadingExponent (m * twoTo e.toNat) 1
  go top 17 1
where
  go (top : Int) : Nat → Nat → Nat × Int
    | 0, n => (0, top - n)
    | more + 1, n =>
      match onGrid? m e (top - n + 1) with
      | some c => (c, top - n + 1)
      | none => go top more (n + 1)

/-- A number without its trailing zeros, of which there are at most `n`; each raises the exponent. -/
def dropZeros : Nat → Nat → Int → Nat × Int
  | 0, c, k => (c, k)
  | n + 1, c, k => if c ≠ 0 ∧ c % 10 = 0 then dropZeros n (c / 10) (k + 1) else (c, k)

/-- The shortest decimal for a double. -/
def ofDouble (negative : Bool) (x : Double) : Decimal :=
  if x.significand = 0 then ⟨negative, 0, 0⟩
  else
    let (c, k) := shortest x.significand x.exponent
    let (digits, exponent) := dropZeros 20 c k
    ⟨negative, digits, exponent⟩

/-- Positional notation if the leading digit stands at 10^-5 to 10^15, with at least one digit behind the
point; otherwise an exponent with its sign. -/
def text (d : Decimal) : String :=
  let sign := if d.negative then "-" else ""
  let short := ofDouble d.negative d.double
  if short.digits = 0 then sign ++ "0.0"
  else
    let k := short.exponent
    let ds := Nat.toDigits 10 short.digits
    let n : Int := ds.length
    let top := n + k - 1
    sign ++
      if -5 ≤ top ∧ top ≤ 15 then
        if 0 ≤ k then String.ofList (ds ++ List.replicate k.toNat '0') ++ ".0"
        else if 0 ≤ top then
          String.ofList (ds.take (top + 1).toNat) ++ "." ++ String.ofList (ds.drop (top + 1).toNat)
        else "0." ++ String.ofList (List.replicate (-top - 1).toNat '0' ++ ds)
      else
        let mantissa := match ds with
          | [a] => String.ofList [a]
          | a :: rest => String.ofList [a] ++ "." ++ String.ofList rest
          | [] => ""
        let power := toString top.natAbs
        mantissa ++ (if top < 0 then "e-" else "e+") ++ (if power.length < 2 then "0" ++ power else power)

end Decimal
end Emend
