import Emend.Text.Search

/-! # Reading from the front of a text

A step holds what was read and the text that remains, which is shorter, so that readers end. A rest is what
remains where nothing may have been read.
-/

namespace Emend.Text

theorem length_dropWhile_le (p : Char → Bool) (s : List Char) : (s.dropWhile p).length ≤ s.length :=
  (List.dropWhile_suffix p).length_le

theorem length_tail_le (s : List Char) : s.tail.length ≤ s.length := List.length_tail ▸ Nat.sub_le s.length 1

theorem length_lt_of_breakOn? {p s a r : List Char} (h : breakOn? p s = some (a, r)) (hp : p ≠ []) :
    r.length < s.length := by
  have e := congrArg List.length (eq_of_breakOn? h)
  have := List.length_pos_iff.2 hp
  simp only [List.length_append] at e
  omega

theorem length_lt_of_after? {p s r : List Char} (h : after? p s = some r) (hp : p ≠ []) :
    r.length < s.length := by
  have := List.length_pos_iff.2 hp
  rw [after?_eq_some_iff.1 h, List.length_append]
  omega

theorem length_le_of_after? {p s r : List Char} (h : after? p s = some r) : r.length ≤ s.length := by
  rw [after?_eq_some_iff.1 h, List.length_append]
  omega

/-- What remains of `s`: some text at its end, or all of it. -/
structure Rest (s : List Char) where
  text : List Char
  le : text.length ≤ s.length

/-- Something read from the start of `s`, and the shorter text that remains. -/
structure Step (α : Type) (s : List Char) where
  value : α
  rest : List Char
  shorter : rest.length < s.length

namespace Rest

variable {s t : List Char}

def all (s : List Char) : Rest s := ⟨s, Nat.le_refl _⟩

def trans (x : Rest s) (y : Rest x.text) : Rest s := ⟨y.text, Nat.le_trans y.le x.le⟩

def tail (x : Rest s) : Rest s := x.trans ⟨x.text.tail, length_tail_le x.text⟩

def dropWhile (p : Char → Bool) (x : Rest s) : Rest s := x.trans ⟨x.text.dropWhile p, length_dropWhile_le p x.text⟩

def after? (p : List Char) (x : Rest s) : Option (Rest s) :=
  match h : Text.after? p x.text with
  | some r => some (x.trans ⟨r, length_le_of_after? h⟩)
  | none => none

/-- A rest is also one of any text that is at least as long. -/
def widen (x : Rest s) (h : s.length ≤ t.length) : Rest t := ⟨x.text, Nat.le_trans x.le h⟩

/-- The rest of the text with one more character in front. -/
def behind {c : Char} (x : Rest s) : Rest (c :: s) := x.widen (Nat.le_succ _)

def toStep {α : Type} (x : Rest s) (a : α) (h : s.length < t.length) : Step α t :=
  ⟨a, x.text, Nat.lt_of_le_of_lt x.le h⟩

def step {α : Type} {c : Char} (x : Rest s) (a : α) : Step α (c :: s) := x.toStep a (Nat.lt_succ_self _)

end Rest

namespace Step

variable {α β : Type} {s t : List Char}

/-- A step is also one from any text that is at least as long. -/
def widen (x : Step α s) (h : s.length ≤ t.length) : Step α t := ⟨x.value, x.rest, Nat.lt_of_lt_of_le x.shorter h⟩

/-- The step from the text with one more character in front. -/
def behind {c : Char} (x : Step α s) : Step α (c :: s) := x.widen (Nat.le_succ _)

def map (f : α → β) (x : Step α s) : Step β s := ⟨f x.value, x.rest, x.shorter⟩

def next (x : Step α s) (y : Rest x.rest) (b : β) : Step β s := ⟨b, y.text, Nat.lt_of_le_of_lt y.le x.shorter⟩

def toRest (x : Step α s) : Rest s := ⟨x.rest, Nat.le_of_lt x.shorter⟩

end Step

def readTo (mark : Char) (s : List Char) : Option (Step (List Char) s) :=
  match h : breakOn? [mark] s with
  | none => none
  | some (text, rest) => some ⟨text, rest, length_lt_of_breakOn? h (List.cons_ne_nil _ _)⟩

def readUntil (stop : List Char) (hs : stop ≠ []) (s : List Char) : Option (Step String s) :=
  match h : breakOn? stop s with
  | none => none
  | some (text, rest) => some ⟨String.ofList text, rest, length_lt_of_breakOn? h hs⟩

end Emend.Text
