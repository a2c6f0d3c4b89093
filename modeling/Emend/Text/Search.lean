/-! # Searching in text

Finding, cutting and replacing over lists of characters, with the string forms built on them.
-/

namespace Emend.Text

def after? : (p s : List Char) → Option (List Char)
  | [], s => some s
  | _ :: _, [] => none
  | a :: p, b :: s => if a = b then after? p s else none

theorem after?_eq_some_iff {p s r : List Char} : after? p s = some r ↔ s = p ++ r := by
  induction p generalizing s with
  | nil => simp [after?, eq_comm]
  | cons a p ih =>
    cases s with
    | nil => simp [after?]
    | cons b s =>
      by_cases h : a = b
      · simp [after?, h, ih]
      · simp [after?, h, Ne.symm h]

def startsWith (s p : List Char) : Bool := (after? p s).isSome

/-- The text before the first occurrence of `p`, and the text after that occurrence. -/
def breakOn? (p : List Char) : List Char → Option (List Char × List Char)
  | [] => (after? p []).map ([], ·)
  | c :: s =>
    match after? p (c :: s) with
    | some r => some ([], r)
    | none => (breakOn? p s).map fun (a, r) => (c :: a, r)

theorem eq_of_breakOn? {p s a r : List Char} (h : breakOn? p s = some (a, r)) : s = a ++ (p ++ r) := by
  induction s generalizing a r with
  | nil =>
    simp only [breakOn?, Option.map_eq_some_iff, Prod.mk.injEq] at h
    obtain ⟨x, hx, rfl, rfl⟩ := h
    simpa using after?_eq_some_iff.1 hx
  | cons c s ih =>
    simp only [breakOn?] at h
    split at h
    · next x hx =>
      cases h
      simpa using after?_eq_some_iff.1 hx
    · obtain ⟨⟨a', r'⟩, hx, he⟩ := Option.map_eq_some_iff.1 h
      cases he
      simp [ih hx]

def contains (p s : List Char) : Bool := (breakOn? p s).isSome

/-- The pieces between the characters that satisfy `sep`; always at least one. -/
def splitWhere (sep : Char → Bool) : List Char → List (List Char)
  | [] => [[]]
  | c :: s =>
    match splitWhere sep s with
    | [] => [[c]]
    | piece :: more => if sep c then [] :: piece :: more else (c :: piece) :: more

/-- Every occurrence of `p` replaced by `by_`, from the left and without overlaps. The empty `p` occurs
between any two characters and at both ends. -/
def replaceAll (p by_ : List Char) (s : List Char) : List Char :=
  match p with
  | [] => by_ ++ s.flatMap fun c => c :: by_
  | a :: p => go (a :: p) by_ s 0
where
  /-- `skip` characters of an occurrence are still to be passed over. -/
  go (p by_ : List Char) : List Char → Nat → List Char
    | [], _ => []
    | _ :: s, skip + 1 => go p by_ s skip
    | c :: s, 0 => if startsWith (c :: s) p then by_ ++ go p by_ s (p.length - 1) else c :: go p by_ s 0

def nonempty? (s : String) : Option String := if s.isEmpty then none else some s

def occursIn (p s : String) : Bool := contains p.toList s.toList

def replace (p by_ s : String) : String := String.ofList (replaceAll p.toList by_.toList s.toList)

def breakLast? (sep : Char → Bool) (s : List Char) : Option (List Char × List Char) :=
  let tail := s.reverse.takeWhile (!sep ·)
  match s.reverse.dropWhile (!sep ·) with
  | [] => none
  | _ :: before => some (before.reverse, tail.reverse)

end Emend.Text
