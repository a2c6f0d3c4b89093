import Emend.Archive
import Emend.Proofs.Json.Standard
import Emend.Proofs.Text.Bytes

/-! # The scan for brackets

On the bytes of a JSON text the scan finds exactly how deep the value nests: no byte of a character behind
ASCII is a bracket, a quote or a backslash, and brackets inside strings are passed over.
-/

namespace Emend.Archive

open Json
open Text (toList_toUTF8 ne_of_mem_utf8EncodeChar utf8EncodeChar_of_lt)

def scan (b : BracketScan) (s : List Char) : BracketScan := (s.flatMap String.utf8EncodeChar).foldl BracketScan.step b

theorem scan_append (b : BracketScan) (s t : List Char) : scan b (s ++ t) = scan (scan b s) t := by
  rw [scan, List.flatMap_append, List.foldl_append]
  rfl

theorem scan_cons (b : BracketScan) (c : Char) (s : List Char) : scan b (c :: s) = scan (scan b [c]) s :=
  scan_append b [c] s

theorem foldl_eq_self {α β : Type} {f : β → α → β} {b : β} {as : List α} (h : ∀ a ∈ as, f b a = b) :
    as.foldl f b = b := by
  induction as with
  | nil => rfl
  | cons a as ih =>
    rw [List.foldl_cons, h a List.mem_cons_self]
    exact ih fun x hx => h x (List.mem_cons_of_mem a hx)

/-- In a string every character but the quote and the backslash is passed over. -/
theorem scan_plain {c : Char} (hq : c ≠ '"') (hb : c ≠ '\\') (d m : Nat) :
    scan ⟨true, false, d, m⟩ [c] = ⟨true, false, d, m⟩ := by
  rw [scan, List.flatMap_singleton]
  refine foldl_eq_self fun byte h => ?_
  have h₁ : byte ≠ 0x5C := ne_of_mem_utf8EncodeChar h (by decide) hb
  have h₂ : byte ≠ 0x22 := ne_of_mem_utf8EncodeChar h (by decide) hq
  simp [BracketScan.step, h₁, h₂]

/-- A backslash hides the character behind it. -/
theorem scan_backslash {c : Char} (h : c.toNat < 128) (d m : Nat) :
    scan ⟨true, false, d, m⟩ ['\\', c] = ⟨true, false, d, m⟩ := by
  rw [scan, List.flatMap_cons, List.flatMap_singleton, utf8EncodeChar_of_lt h]
  rfl

/-- Hexadecimal digits are passed over. -/
theorem scan_hex {s : List Char} (h : ∀ c ∈ s, (hexValue? c).isSome = true) (d m : Nat) :
    scan ⟨true, false, d, m⟩ s = ⟨true, false, d, m⟩ := by
  induction s with
  | nil => rfl
  | cons c s ih =>
    obtain ⟨hc, hs⟩ := List.forall_mem_cons.1 h
    have hq : c ≠ '"' := by
      rintro rfl
      cases hc
    have hb : c ≠ '\\' := by
      rintro rfl
      cases hc
    rw [scan_cons, scan_plain hq hb, ih hs]

theorem scan_isString {s : List Char} (h : IsString s) (d m : Nat) :
    scan ⟨true, false, d, m⟩ s = ⟨true, false, d, m⟩ := by
  induction h with
  | nil => rfl
  | plain h _ ih => rw [scan_cons, scan_plain h.2.1 h.2.2, ih]
  | @escape e s h _ ih =>
    have ascii : "\"\\/bfnrt".toList.all (·.toNat < 128) = true := by decide
    have he := of_decide_eq_true (List.all_eq_true.1 ascii e h)
    rw [show '\\' :: e :: s = ['\\', e] ++ s from rfl, scan_append, scan_backslash he, ih]
  | @unicode a b c e s h _ ih =>
    rw [show '\\' :: 'u' :: a :: b :: c :: e :: s = ['\\', 'u'] ++ ([a, b, c, e] ++ s) from rfl, scan_append,
      scan_append, scan_backslash (by decide), scan_hex h, ih]

/-- A string between its quotes. -/
theorem scan_string {s : List Char} (h : IsString s) (t : List Char) (d m : Nat) :
    scan ⟨false, false, d, m⟩ ('"' :: (s ++ '"' :: t)) = scan ⟨false, false, d, m⟩ t := by
  rw [scan_cons, show scan ⟨false, false, d, m⟩ ['"'] = ⟨true, false, d, m⟩ from rfl, scan_append, scan_isString h,
    scan_cons]
  rfl

/-- Outside strings these characters alone are looked at. -/
def isMark (c : Char) : Bool := c == '"' || c == '{' || c == '}' || c == '[' || c == ']'

theorem scan_unmarked {s : List Char} (h : ∀ c ∈ s, isMark c = false) (d m : Nat) :
    scan ⟨false, false, d, m⟩ s = ⟨false, false, d, m⟩ := by
  rw [scan]
  refine foldl_eq_self fun byte hb => ?_
  obtain ⟨c, hc, hb⟩ := List.mem_flatMap.1 hb
  have hm := h c hc
  simp only [isMark, Bool.or_eq_false_iff, beq_eq_false_iff_ne] at hm
  obtain ⟨⟨⟨⟨h₁, h₂⟩, h₃⟩, h₄⟩, h₅⟩ := hm
  have h₁ : byte ≠ 0x22 := ne_of_mem_utf8EncodeChar hb (by decide) h₁
  have h₂ : byte ≠ 0x7B := ne_of_mem_utf8EncodeChar hb (by decide) h₂
  have h₃ : byte ≠ 0x7D := ne_of_mem_utf8EncodeChar hb (by decide) h₃
  have h₄ : byte ≠ 0x5B := ne_of_mem_utf8EncodeChar hb (by decide) h₄
  have h₅ : byte ≠ 0x5D := ne_of_mem_utf8EncodeChar hb (by decide) h₅
  simp [BracketScan.step, h₁, h₂, h₃, h₄, h₅]

theorem scan_spaces {s : List Char} (h : IsSpaces s) (d m : Nat) :
    scan ⟨false, false, d, m⟩ s = ⟨false, false, d, m⟩ := by
  refine scan_unmarked (fun c hc => ?_) d m
  have hs := h c hc
  simp only [isSpace, Bool.or_eq_true, beq_iff_eq] at hs
  rcases hs with ((rfl | rfl) | rfl) | rfl <;> rfl

theorem isMark_eq_false_of_isNumberChar {c : Char} (h : isNumberChar c = true) : isMark c = false := by
  by_contra hm
  rw [Bool.not_eq_false] at hm
  simp only [isMark, Bool.or_eq_true, beq_iff_eq] at hm
  rcases hm with (((rfl | rfl) | rfl) | rfl) | rfl <;> exact absurd h (by decide)

theorem scan_isKey {k : List Char} (h : IsKey k) (d m : Nat) :
    scan ⟨false, false, d, m⟩ k = ⟨false, false, d, m⟩ := by
  obtain ⟨ha, hk, hb, hc⟩ := h
  rw [scan_append, scan_spaces ha, scan_string hk, scan_append, scan_spaces hb, scan_cons,
    scan_unmarked (s := [':']) (by simp [isMark]), scan_spaces hc]

/-- A value without brackets leaves the scan as it was. -/
theorem scan_leaf {s : List Char} {j : Json} {d m : Nat} (hm : d ≤ m) (hj : j.nesting = 0)
    (h : scan ⟨false, false, d, m⟩ s = ⟨false, false, d, m⟩) :
    scan ⟨false, false, d, m⟩ s = ⟨false, false, d, max m (d + j.nesting)⟩ := by
  rw [hj, Nat.add_zero, Nat.max_eq_left hm, h]

mutual

/-- A value leaves the depth as it was and raises the deepest one to its own. -/
theorem scan_spells {s : List Char} {j : Json} (h : Spells s j) {d m : Nat} (hm : d ≤ m) :
    scan ⟨false, false, d, m⟩ s = ⟨false, false, d, max m (d + j.nesting)⟩ := by
  cases h with
  | null => exact scan_leaf hm rfl (scan_unmarked (by simp [isMark]) d m)
  | bool b => cases b <;> exact scan_leaf hm rfl (scan_unmarked (by simp [isMark]) d m)
  | number h hj =>
    have flat : j.nesting = 0 := by cases hj <;> rfl
    exact scan_leaf hm flat
      (scan_unmarked (fun c hc => isMark_eq_false_of_isNumberChar (isNumberChar_of_isNumber h c hc)) d m)
  | string h => exact scan_leaf hm rfl (scan_string h [] d m)
  | @array s items h =>
    rw [scan_cons, show scan ⟨false, false, d, m⟩ ['['] = ⟨false, false, d + 1, max m (d + 1)⟩ from rfl, scan_append,
      scan_spellsItems h (by omega), nesting]
    change BracketScan.mk false false d (max (max m (d + 1)) (d + 1 + _)) = _
    rw [BracketScan.mk.injEq]
    exact ⟨rfl, rfl, rfl, by omega⟩
  | @object s fields h =>
    rw [scan_cons, show scan ⟨false, false, d, m⟩ ['{'] = ⟨false, false, d + 1, max m (d + 1)⟩ from rfl, scan_append,
      scan_spellsFields h (by omega), nesting]
    change BracketScan.mk false false d (max (max m (d + 1)) (d + 1 + _)) = _
    rw [BracketScan.mk.injEq]
    exact ⟨rfl, rfl, rfl, by omega⟩

theorem scan_spellsItems {s : List Char} {items : List Json} (h : SpellsItems s items) {d m : Nat} (hm : d ≤ m) :
    scan ⟨false, false, d, m⟩ s = ⟨false, false, d, max m (d + nestingAll items)⟩ := by
  cases h with
  | none hb => rw [nestingAll, Nat.add_zero, Nat.max_eq_left hm, scan_spaces hb]
  | last ha hv hb =>
    rw [scan_append, scan_spaces ha, scan_append, scan_spells hv hm, scan_spaces hb, nestingAll, nestingAll,
      Nat.max_zero]
  | more ha hv hb hj ht =>
    rw [scan_append, scan_spaces ha, scan_append, scan_spells hv hm, scan_append, scan_spaces hb, scan_cons,
      scan_unmarked (s := [',']) (by simp [isMark]), scan_spellsItems ht (by omega), nestingAll, BracketScan.mk.injEq]
    exact ⟨rfl, rfl, rfl, by omega⟩

theorem scan_spellsFields {s : List Char} {fields : List (String × Json)} (h : SpellsFields s fields) {d m : Nat}
    (hm : d ≤ m) : scan ⟨false, false, d, m⟩ s = ⟨false, false, d, max m (d + nestingFields fields)⟩ := by
  cases h with
  | none hb => rw [nestingFields, Nat.add_zero, Nat.max_eq_left hm, scan_spaces hb]
  | last key hk hv hb =>
    rw [scan_append, scan_isKey hk, scan_append, scan_spells hv hm, scan_spaces hb, nestingFields, nestingFields,
      Nat.max_zero]
  | more key hk hv hb hf ht =>
    rw [scan_append, scan_isKey hk, scan_append, scan_spells hv hm, scan_append, scan_spaces hb, scan_cons,
      scan_unmarked (s := [',']) (by simp [isMark]), scan_spellsFields ht (by omega), nestingFields,
      BracketScan.mk.injEq]
    exact ⟨rfl, rfl, rfl, by omega⟩

end

/-- Over a whole text the scan ends outside strings and brackets. -/
theorem scan_isText {s : List Char} {j : Json} (h : IsText s j) : scan {} s = ⟨false, false, 0, j.nesting⟩ := by
  obtain ⟨a, t, b, ha, ht, hb, rfl⟩ := h
  rw [scan_append, scan_spaces ha, scan_append, scan_spells ht (Nat.le_refl 0), scan_spaces hb, Nat.zero_max,
    Nat.zero_add]

theorem bracketDepth_toUTF8 (s : String) : bracketDepth s.toUTF8.data.toList = (scan {} s.toList).deepest := by
  rw [toList_toUTF8]
  rfl

/-- On the bytes of a text the scan finds how deep the arrays and objects of its value nest. -/
theorem bracketDepth_eq_nesting {s : String} {j : Json} (h : IsText s.toList j) :
    bracketDepth s.toUTF8.data.toList = j.nesting := by
  rw [bracketDepth_toUTF8, scan_isText h]

/-- Brackets, quotes and a backslash in strings, and half of a surrogate pair. -/
def bracketText : String := " [\x7b\"é[\\\"\" : \"\\ud800]\\\\\"\x7d, -1.5E+3]\n"

def bracketValue : Json := .array [.object [("é[\"", .string "\ufffd]\\")], .real ⟨true, 15, 2⟩]

theorem isText_bracketText : IsText bracketText.toList bracketValue := by
  have blank : IsSpaces [' '] := List.forall_mem_singleton.2 rfl
  have feed : IsSpaces ['\n'] := List.forall_mem_singleton.2 rfl
  have digit {c : Char} (h : isDigit c = true) : IsDigits [c] := ⟨List.cons_ne_nil _ _, List.forall_mem_singleton.2 h⟩
  have key : IsKey "\"é[\\\"\" : ".toList := .mk (a := []) nofun
    (.plain (by decide) (.plain (by decide) (.escape (by decide) .nil))) blank blank
  have value : Spells "\"\\ud800]\\\\\"".toList (.string "\ufffd]\\") :=
    .string (.unicode (List.all_eq_true.1 (by decide)) (.plain (by decide) (.escape (by decide) .nil))) _
  have number : Spells "-1.5E+3".toList (.real ⟨true, 15, 2⟩) :=
    .number (@IsNumber.mk ['-'] ['1'] _ _ (.inr rfl) ⟨digit rfl, by decide⟩ (.inr ⟨['5'], rfl, digit rfl⟩)
      (.inr ⟨'E', ['+'], ['3'], rfl, .inr rfl, .inr (.inr rfl), digit rfl⟩)) (.real _)
  have object := Spells.object (.last (b := []) "é[\"" key value nofun)
  have array := Spells.array (.more (a := []) (b := []) nofun object nofun (List.cons_ne_nil _ _)
    (.last (b := []) blank number nofun))
  exact ⟨[' '], _, ['\n'], blank, array, feed, by decide⟩

theorem bracketDepth_eq_nesting_bracketText :
    IsText bracketText.toList bracketValue ∧ bracketDepth bracketText.toUTF8.data.toList = 2 :=
  ⟨isText_bracketText, bracketDepth_eq_nesting isText_bracketText⟩

/-- The scan and the reader agree on what is read. -/
theorem bracketDepth_of_parse? {s : String} {j : Json} (h : Json.parse? s = some j) :
    bracketDepth s.toUTF8.data.toList = j.nesting := by
  rw [bracketDepth_toUTF8, scan_isText (isText_of_parseChars? h)]

theorem bracketDepth_of_writes {s a b : List Char} {j : Json} (h : Writes s j) (ha : IsSpaces a) (hb : IsSpaces b) :
    bracketDepth (String.ofList (a ++ (s ++ b))).toUTF8.data.toList = j.nesting := by
  refine bracketDepth_of_parse? ?_
  rw [Json.parse?, String.toList_ofList]
  exact parseChars?_of_writes h ha hb

end Emend.Archive
