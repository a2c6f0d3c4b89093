import Emend.Json.Reader
import Emend.Regex.Pattern
import Emend.Text.Blank
import Emend.Text.Step

/-! # Escapes

What may follow a backslash. Where patterns are extended, blanks and comments may stand between the parts.
-/

namespace Emend.Regex

open Text (Rest Step)

/-- Passes over blanks and comments; a comment runs from `#` to the end of its line. -/
def skipBlanks : (inComment : Bool) → List Char → List Char
  | _, [] => []
  | true, c :: s => skipBlanks (c != '\n') s
  | false, c :: s =>
    if Text.isWhiteSpace c then skipBlanks false s else if c = '#' then skipBlanks true s else c :: s

def skip (extended : Bool) (s : List Char) : List Char := if extended then skipBlanks false s else s

theorem length_skipBlanks_le (b : Bool) (s : List Char) : (skipBlanks b s).length ≤ s.length := by
  fun_induction skipBlanks b s <;> grind

theorem length_skip_le (x : Bool) (s : List Char) : (skip x s).length ≤ s.length := by
  unfold skip
  split
  · exact length_skipBlanks_le false s
  · exact Nat.le_refl _

theorem length_lt_of_skip {x : Bool} {s : List Char} {c : Char} {r : List Char} (h : skip x s = c :: r) :
    r.length < s.length := by
  have := length_skip_le x s
  rw [h] at this
  exact this

theorem length_le_of_skip {x : Bool} {s t : List Char} (h : skip x s = t) : t.length ≤ s.length :=
  h ▸ length_skip_le x s

def skipped (x : Bool) (s : List Char) : Rest s := ⟨skip x s, length_skip_le x s⟩

def skipMore {s : List Char} (x : Bool) (r : Rest s) : Rest s := r.trans (skipped x r.text)

def thenSkip {α : Type} {s : List Char} (x : Bool) (st : Step α s) : Step α s :=
  st.next (skipped x st.rest) st.value

def braced (x : Bool) : (inComment : Bool) → (s : List Char) → Option (Step (List Char) s)
  | _, [] => none
  | true, c :: s => (braced x (c != '\n') s).map (·.behind)
  | false, c :: s =>
    if x && Text.isWhiteSpace c then (braced x false s).map (·.behind)
    else if x && c == '#' then (braced x true s).map (·.behind)
    else if c == '\x7d' then some ((Rest.all s).step [])
    else (braced x false s).map fun st => (st.map (c :: ·)).behind

inductive Primitive where
  | char (c : Char) (byte : Bool)
  | anchor (a : Anchor)
  | perl (kind : PerlClass) (negated : Bool)
  | property (query : PropertyQuery) (negated : Bool)

def charOfHex? (digits : List Char) : Option Char := do
  let values ← digits.mapM Json.hexValue?
  let n := values.foldl (fun n d => n * 16 + d) 0
  if digits.isEmpty then none
  else if n < 0xD800 ∨ 0xDFFF < n ∧ n ≤ 0x10FFFF then some (Char.ofNat n)
  else none

def takeChars (x : Bool) : Nat → (s : List Char) → Option (List Char × Rest s)
  | 0, s => some ([], .all s)
  | _ + 1, [] => none
  | n + 1, c :: s => (takeChars x n (skip x s)).map fun (cs, r) => (c :: cs, ((skipped x s).trans r).behind)

def readHex (x : Bool) (n : Nat) (s : List Char) : Except Fault (Step Primitive s) :=
  match h : skip x s with
  | [] => .error .badEscape
  | '\x7b' :: rest =>
    match braced x false rest with
    | none => .error .badEscape
    | some digits =>
      match charOfHex? digits.value with
      | none => .error .badEscape
      | some c =>
        .ok ((thenSkip x (digits.map fun _ => .char c false)).widen (Nat.le_of_lt (length_lt_of_skip h)))
  | a :: rest =>
    match takeChars x (n - 1) (skip x rest) with
    | none => .error .badEscape
    | some (digits, r) =>
      match charOfHex? (a :: digits) with
      | none => .error .badEscape
      | some c => .ok (((skipped x rest).trans r).toStep (.char c (n == 2)) (length_lt_of_skip h))

/-- The query between the braces of `\p`, and whether it is itself a negation. -/
def queryOf (s : List Char) : PropertyQuery × Bool :=
  match Text.breakOn? ['!', '='] s with
  | some (a, b) => (.value (String.ofList a) (String.ofList b), true)
  | none =>
    match Text.breakOn? [':'] s with
    | some (a, b) => (.value (String.ofList a) (String.ofList b), false)
    | none =>
      match Text.breakOn? ['='] s with
      | some (a, b) => (.value (String.ofList a) (String.ofList b), false)
      | none => (.name (String.ofList s), false)

def readProperty (x negated : Bool) (s : List Char) : Except Fault (Step Primitive s) :=
  match h : skip x s with
  | [] => .error .badEscape
  | '\x7b' :: rest =>
    match braced x false rest with
    | none => .error .badEscape
    | some name =>
      let (query, inverted) := queryOf name.value
      .ok ((name.map fun _ => .property query (negated != inverted)).widen (Nat.le_of_lt (length_lt_of_skip h)))
  | c :: rest =>
    if c = '\\' then .error .badClass
    else .ok ((skipped x rest).toStep (.property (.name (String.ofList [c])) negated) (length_lt_of_skip h))

def isBoundaryChar (c : Char) : Bool := c.isAlpha || c == '-'

/-- What follows `\b`: the name of a kind of boundary in braces, or nothing. -/
def readBoundary (x : Bool) (s : List Char) : Except Fault (Anchor × Rest s) :=
  match s with
  | '\x7b' :: rest =>
    match skip x rest with
    | [] => .error .badEscape
    | c :: _ =>
      if !isBoundaryChar c then .ok (.wordBoundary, .all _)
      else match braced x false rest with
        | none => .error .badEscape
        | some name =>
          let at_ (a : Anchor) := .ok (a, name.toRest.behind)
          match String.ofList name.value with
          | "start" => at_ .wordStart
          | "end" => at_ .wordEnd
          | "start-half" => at_ .wordStartHalf
          | "end-half" => at_ .wordEndHalf
          | _ => .error .badEscape
  | s => .ok (.wordBoundary, .all s)

def isEscapable (c : Char) : Bool := c.toNat < 128 && !c.isAlphanum && c != '<' && c != '>'

def simpleEscape? : Char → Option Primitive
  | 'a' => some (.char '\x07' false)
  | 'f' => some (.char '\x0c' false)
  | 't' => some (.char '\t' false)
  | 'n' => some (.char '\n' false)
  | 'r' => some (.char '\r' false)
  | 'v' => some (.char '\x0b' false)
  | 'A' => some (.anchor .textStart)
  | 'z' => some (.anchor .textEnd)
  | 'B' => some (.anchor .notWordBoundary)
  | '<' => some (.anchor .wordStart)
  | '>' => some (.anchor .wordEnd)
  | 'd' => some (.perl .digit false)
  | 's' => some (.perl .space false)
  | 'w' => some (.perl .word false)
  | 'D' => some (.perl .digit true)
  | 'S' => some (.perl .space true)
  | 'W' => some (.perl .word true)
  | c => if isEscapable c then some (.char c false) else none

def readEscape (x : Bool) : (s : List Char) → Except Fault (Step Primitive s)
  | [] => .error .badEscape
  | c :: s =>
    let longer (r : Except Fault (Step Primitive s)) : Except Fault (Step Primitive (c :: s)) :=
      r.map (·.behind)
    if c.isDigit then .error .backReference
    else if c = 'x' then longer (readHex x 2 s)
    else if c = 'u' then longer (readHex x 4 s)
    else if c = 'U' then longer (readHex x 8 s)
    else if c = 'p' then longer (readProperty x false s)
    else if c = 'P' then longer (readProperty x true s)
    else if c = 'b' then (readBoundary x s).map fun (a, r) => r.step (.anchor a)
    else match simpleEscape? c with
      | some p => .ok ((Rest.all s).step p)
      | none => .error .badEscape

end Emend.Regex
