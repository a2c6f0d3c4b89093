/-! # Double precision

Magnitudes `significand · 2 ^ exponent` with 53 bits for the significand, and rounding to the nearest one.
-/

namespace Emend

def twoTo (k : Nat) : Nat := Nat.pow 2 k

def tenTo (k : Nat) : Nat := Nat.pow 10 k

structure Double where
  significand : Nat
  exponent : Int
deriving DecidableEq, Repr

namespace Double

def minExponent : Int := -1074

def maxExponent : Int := 971

def zero : Double := ⟨0, minExponent⟩

def isFinite (x : Double) : Bool := x.exponent ≤ maxExponent

def fraction (m : Nat) (e : Int) (den : Nat) : Nat × Nat :=
  if 0 ≤ e then (m * twoTo e.toNat, den) else (m, den * twoTo (-e).toNat)

def roundDiv (num den : Nat) : Nat :=
  let q := num / den
  let r := num % den
  if den < 2 * r ∨ 2 * r = den ∧ q % 2 = 1 then q + 1 else q

/-- The magnitude closest to `num / den`, ties to an even significand. It may lie beyond the finite ones. -/
def nearest (num den : Nat) : Double :=
  if num = 0 then zero
  else
    -- the quotient lies between `2 ^ (guess + 51)` and `2 ^ (guess + 53)`
    let guess : Int := (num.log2 : Int) - den.log2 - 52
    let (a, b) := fraction num (-guess) den
    let e := max (if a < twoTo 52 * b then guess - 1 else guess) minExponent
    let (a, b) := fraction num (-e) den
    let m := roundDiv a b
    if m = twoTo 53 then ⟨twoTo 52, e + 1⟩ else ⟨m, e⟩

def mul (x y : Double) : Double :=
  let (a, b) := fraction (x.significand * y.significand) (x.exponent + y.exponent) 1
  nearest a b

def div (x y : Double) : Double :=
  let (a, b) := fraction x.significand (x.exponent - y.exponent) y.significand
  nearest a b

end Double
end Emend
