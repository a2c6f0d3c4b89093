import Emend.Json.Number
import Emend.Text.Step

/-! # Reading JSON

The standard's grammar. Half of a surrogate pair alone is refused.
-/

namespace Emend.Json

open Text (Step length_dropWhile_le length_lt_of_after?)

def isSpace (c : Char) : Bool := c == ' ' || c == '\t' || c == '\n' || c == '\r'

def skipSpace (s : List Char) : List Char := s.dropWhile isSpace

theorem length_skipSpace_le (s : List Char) : (skipSpace s).length ≤ s.length := length_dropWhile_le _ s

def hexValue? (c : Char) : Option Nat :=
  if '0' ≤ c ∧ c ≤ '9' then some (c.toNat - 48)
  else if 'a' ≤ c ∧ c ≤ 'f' then some (c.toNat - 87)
  else if 'A' ≤ c ∧ c ≤ 'F' then some (c.toNat - 55)
  else none

def hex4? (a b c d : Char) : Option Nat := do
  return (((← hexValue? a) * 16 + (← hexValue? b)) * 16 + (← hexValue? c)) * 16 + (← hexValue? d)

def simpleEscape? : Char → Option Char
  | '"' => some '"'
  | '\\' => some '\\'
  | '/' => some '/'
  | 'b' => some '\x08'
  | 'f' => some '\x0c'
  | 'n' => some '\n'
  | 'r' => some '\r'
  | 't' => some '\t'
  | _ => none

/-- The characters of a string up to its closing quote, and what follows it. -/
def readChars : List Char → Option (List Char × List Char)
  | [] => none
  | '"' :: s => some ([], s)
  | '\\' :: 'u' :: a :: b :: c :: d :: s =>
    match hex4? a b c d with
    | none => none
    | some hi =>
      if 0xD800 ≤ hi ∧ hi < 0xDC00 then
        match s with
        | '\\' :: 'u' :: a :: b :: c :: d :: s =>
          match hex4? a b c d with
          | none => none
          | some lo =>
            if 0xDC00 ≤ lo ∧ lo < 0xE000 then
              (readChars s).map fun (cs, r) =>
                (Char.ofNat (0x10000 + (hi - 0xD800) * 0x400 + (lo - 0xDC00)) :: cs, r)
            else none
        | _ => none
      else if 0xDC00 ≤ hi ∧ hi < 0xE000 then none
      else (readChars s).map fun (cs, r) => (Char.ofNat hi :: cs, r)
  | '\\' :: e :: s =>
    match simpleEscape? e with
    | none => none
    | some c => (readChars s).map fun (cs, r) => (c :: cs, r)
  | c :: s => if c.toNat < 32 ∨ c = '\\' then none else (readChars s).map fun (cs, r) => (c :: cs, r)

theorem length_lt_of_readChars {s cs r : List Char} (h : readChars s = some (cs, r)) : r.length < s.length := by
  fun_induction readChars s generalizing cs r with
  | case1 | case3 | case4 | case6 | case7 | case8 | case10 | case12 => simp at h
  | case2 s =>
    cases h
    simp
  | case5 _ _ _ _ _ _ _ _ _ _ _ _ _ _ _ ih | case9 _ _ _ _ _ _ _ _ _ ih | case11 _ _ _ _ _ ih | case13 _ _ _ _ _ _ ih =>
    obtain ⟨⟨cs', r'⟩, h', e⟩ := Option.map_eq_some_iff.1 h
    cases e
    have := ih h'
    simp only [List.length_cons]
    omega

def readString (s : List Char) : Option (Step String s) :=
  match h : readChars s with
  | none => none
  | some (cs, r) => some ⟨String.ofList cs, r, length_lt_of_readChars h⟩

def readScalar (s : List Char) : Option (Step Json s) :=
  match h : Text.after? "null".toList s with
  | some r => some ⟨.null, r, length_lt_of_after? h (by decide)⟩
  | none =>
    match h : Text.after? "true".toList s with
    | some r => some ⟨.bool true, r, length_lt_of_after? h (by decide)⟩
    | none =>
      match h : Text.after? "false".toList s with
      | some r => some ⟨.bool false, r, length_lt_of_after? h (by decide)⟩
      | none =>
        match number? s with
        | some (j, r) => if h : r.length < s.length then some ⟨j, r, h⟩ else none
        | none => none

mutual

def readValue (s : List Char) : Option (Step Json s) :=
  match h : skipSpace s with
  | '"' :: r => do
    let x ← readString r
    return ⟨.string x.value, x.rest, by
      have h₁ := length_skipSpace_le s
      have h₂ := x.shorter
      simp only [h, List.length_cons] at h₁
      omega⟩
  | '[' :: r =>
    have hr : r.length < s.length := by
      have h₁ := length_skipSpace_le s
      simp only [h, List.length_cons] at h₁
      omega
    match h' : skipSpace r with
    | ']' :: r' => some ⟨.array [], r', by
        have h₁ := length_skipSpace_le r
        simp only [h', List.length_cons] at h₁
        omega⟩
    | _ => do
      let x ← readItems [] r
      return (x.map .array).widen (Nat.le_of_lt hr)
  | '{' :: r =>
    have hr : r.length < s.length := by
      have h₁ := length_skipSpace_le s
      simp only [h, List.length_cons] at h₁
      omega
    match h' : skipSpace r with
    | '}' :: r' => some ⟨.object [], r', by
        have h₁ := length_skipSpace_le r
        simp only [h', List.length_cons] at h₁
        omega⟩
    | _ => do
      let x ← readFields [] r
      return (x.map .object).widen (Nat.le_of_lt hr)
  | s₁ => do
    let x ← readScalar s₁
    return x.widen (by
      have h₁ := length_skipSpace_le s
      rwa [h] at h₁)
termination_by (s.length, 0)

/-- The items of an array and its closing bracket; `read` holds those before, the last one first. -/
def readItems (read : List Json) (s : List Char) : Option (Step (List Json) s) :=
  match readValue s with
  | none => none
  | some x =>
    have hx := x.shorter
    match h : skipSpace x.rest with
    | ',' :: r =>
      have hr : r.length < s.length := by
        have h₁ := length_skipSpace_le x.rest
        simp only [h, List.length_cons] at h₁
        omega
      (readItems (x.value :: read) r).map (·.widen (Nat.le_of_lt hr))
    | ']' :: r => some ⟨(x.value :: read).reverse, r, by
        have h₁ := length_skipSpace_le x.rest
        simp only [h, List.length_cons] at h₁
        omega⟩
    | _ => none
termination_by (s.length, 1)

/-- The fields of an object and its closing brace; `read` holds those before, the last one first. -/
def readFields (read : List (String × Json)) (s : List Char) : Option (Step (List (String × Json)) s) :=
  match h : skipSpace s with
  | '"' :: r =>
    have hr : r.length < s.length := by
      have h₁ := length_skipSpace_le s
      simp only [h, List.length_cons] at h₁
      omega
    match readString r with
    | none => none
    | some key =>
      have hk := key.shorter
      match h : skipSpace key.rest with
      | ':' :: r₁ =>
        have hr₁ : r₁.length < s.length := by
          have h₁ := length_skipSpace_le key.rest
          simp only [h, List.length_cons] at h₁
          omega
        match readValue r₁ with
        | none => none
        | some x =>
          have hx := x.shorter
          match h : skipSpace x.rest with
          | ',' :: r₂ =>
            have hr₂ : r₂.length < s.length := by
              have h₁ := length_skipSpace_le x.rest
              simp only [h, List.length_cons] at h₁
              omega
            (readFields ((key.value, x.value) :: read) r₂).map (·.widen (Nat.le_of_lt hr₂))
          | '}' :: r₂ => some ⟨((key.value, x.value) :: read).reverse, r₂, by
              have h₁ := length_skipSpace_le x.rest
              simp only [h, List.length_cons] at h₁
              omega⟩
          | _ => none
      | _ => none
  | _ => none
termination_by (s.length, 1)

end

def parseChars? (s : List Char) : Option Json := do
  let x ← readValue s
  if (skipSpace x.rest).isEmpty then some x.value else none

def parse? (s : String) : Option Json := parseChars? s.toList

end Emend.Json
