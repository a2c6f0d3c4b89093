import Emend.Json.Printer
import Emend.Proofs.Json.Grammar

/-! # What the printers write

Compact and indented text of a value both are texts of that value, if its numbers are natural ones of 64
bits.
-/

namespace Emend.Json

mutual

/-- Every number is a natural one of 64 bits. -/
@[simp] def Plain : Json → Prop
  | real _ => False
  | int n => 0 ≤ n ∧ n ≤ 0xffffffffffffffff
  | array items => PlainAll items
  | object fields => PlainFields fields
  | null | bool _ | string _ => True

@[simp] def PlainAll : List Json → Prop
  | [] => True
  | j :: js => j.Plain ∧ PlainAll js

@[simp] def PlainFields : List (String × Json) → Prop
  | [] => True
  | (_, j) :: fs => j.Plain ∧ PlainFields fs

end

theorem plainAll_iff {js : List Json} : PlainAll js ↔ ∀ j ∈ js, j.Plain := by
  induction js with
  | nil => simp
  | cons j js ih => simp [ih]

theorem plainFields_iff {fs : List (String × Json)} : PlainFields fs ↔ ∀ f ∈ fs, f.2.Plain := by
  induction fs with
  | nil => simp
  | cons f fs ih => simp [ih]

theorem hex4?_hexDigit {n : Nat} (h : n < 32) : hex4? '0' '0' (hexDigit (n / 16)) (hexDigit (n % 16)) = some n := by
  have : ∀ n < 32, hex4? '0' '0' (hexDigit (n / 16)) (hexDigit (n % 16)) = some n := by decide
  exact this n h

theorem writesChars_escapeChar (c : Char) {s cs : List Char} (h : WritesChars s cs) :
    WritesChars (escapeChar c ++ s) (c :: cs) := by
  unfold escapeChar
  split
  next hc => exact .escape (by rw [hc]; rfl) h
  next hq =>
  split
  next hc => exact .escape (by rw [hc]; rfl) h
  next hb =>
  split
  next hc => exact .escape (by rw [hc]; rfl) h
  split
  next hc => exact .escape (by rw [hc]; rfl) h
  split
  next hc => exact .escape (by rw [hc]; rfl) h
  split
  next hc => exact .escape (by rw [hc]; rfl) h
  split
  next hc => exact .escape (by rw [hc]; rfl) h
  split
  next hc =>
    have hu := WritesChars.unicode (hex4?_hexDigit hc) (.inl (by omega)) h
    rwa [Char.ofNat_toNat] at hu
  next hc => exact .plain ⟨Nat.not_lt.1 hc, hq, hb⟩ h

theorem writesChars_escape (cs : List Char) : WritesChars (cs.flatMap escapeChar) cs := by
  induction cs with
  | nil => exact .nil
  | cons c cs ih =>
    rw [List.flatMap_cons]
    exact writesChars_escapeChar c ih

theorem toList_quoted (s : String) : (quoted s).toList = '"' :: (s.toList.flatMap escapeChar ++ ['"']) := by
  rw [quoted, String.toList_ofList]
  rfl

theorem writes_quoted (s : String) : Writes (quoted s).toList (.string s) := by
  rw [toList_quoted]
  have h := Writes.string (writesChars_escape s.toList)
  rwa [String.ofList_toList] at h

theorem IsSpaces.nil : IsSpaces [] := by
  intro c hc
  cases hc

theorem writesKey_quoted (key : String) {a c : List Char} (ha : IsSpaces a) (hc : IsSpaces c) :
    WritesKey (a ++ ((quoted key).toList ++ ':' :: c)) key := by
  have h := WritesKey.mk ha (writesChars_escape key.toList) .nil hc
  rw [String.ofList_toList] at h
  rw [toList_quoted]
  simpa using h

theorem writes_int {n : Int} (h : 0 ≤ n ∧ n ≤ 0xffffffffffffffff) : Writes (toString n).toList (.int n) := by
  obtain ⟨k, rfl⟩ := Int.eq_ofNat_of_zero_le h.1
  have hk : k ≤ 0xffffffffffffffff := by omega
  have ht : (toString (k : Int)).toList = Nat.toDigits 10 k := by
    change (toString k).toList = _
    rw [Nat.toString_eq_ofList_toDigits, String.toList_ofList]
  rw [ht]
  exact .number (number?_toDigits hk)

mutual

theorem writes_print (j : Json) (h : j.Plain) : Writes j.print.toList j := by
  cases j with
  | null => exact .null
  | bool b =>
    rw [print]
    exact .bool b
  | int n => exact writes_int h
  | real d => exact h.elim
  | string s => exact writes_quoted s
  | array items =>
    have hi := Writes.array (writesItems_printAll items h)
    rw [print]
    simpa using hi
  | object fields =>
    have hf := Writes.object (writesFields_printFields fields h)
    rw [print]
    simpa using hf

theorem writesItems_printAll (items : List Json) (h : PlainAll items) : WritesItems (printAll items).toList items := by
  cases items with
  | nil => exact .none .nil
  | cons j js =>
    obtain ⟨hj, hjs⟩ := h
    have hw := writes_print j hj
    have hs := writesItems_printAll js hjs
    cases js with
    | nil =>
      have hl := WritesItems.last .nil hw .nil
      rw [printAll]
      simpa using hl
    | cons j' js =>
      have hm := WritesItems.more .nil hw .nil (List.cons_ne_nil j' js) hs
      rw [printAll]
      · simpa using hm
      · exact List.cons_ne_nil _ _

theorem writesFields_printFields (fields : List (String × Json)) (h : PlainFields fields) :
    WritesFields (printFields fields).toList fields := by
  cases fields with
  | nil => exact .none .nil
  | cons f fs =>
    obtain ⟨key, j⟩ := f
    obtain ⟨hj, hfs⟩ := h
    have hw := writes_print j hj
    have hs := writesFields_printFields fs hfs
    cases fs with
    | nil =>
      have hl := WritesFields.last (writesKey_quoted key .nil .nil) hw .nil
      rw [printFields]
      simpa using hl
    | cons f fs =>
      have hm := WritesFields.more (writesKey_quoted key .nil .nil) hw .nil (List.cons_ne_nil f fs) hs
      rw [printFields]
      · simpa using hm
      · exact List.cons_ne_nil _ _

end

theorem isSpaces_newline (level : Nat) : IsSpaces (newline level).toList := by
  intro c hc
  rw [newline, String.toList_ofList] at hc
  rcases List.mem_cons.1 hc with rfl | hc
  · rfl
  · rw [(List.mem_replicate.1 hc).2]
    rfl

mutual

theorem writes_printPretty (level : Nat) (j : Json) (h : j.Plain) : Writes (j.printPretty level).toList j := by
  cases j with
  | null => exact .null
  | bool b =>
    rw [printPretty]
    exact .bool b
  | int n => exact writes_int h
  | real d => exact h.elim
  | string s => exact writes_quoted s
  | array items =>
    cases items with
    | nil =>
      rw [printPretty]
      exact .array (.none .nil)
    | cons j js =>
      obtain ⟨hj, hjs⟩ := h
      have hi := Writes.array (writesItems_printPrettyMore (level + 1) js hjs (isSpaces_newline (level + 1))
        (writes_printPretty (level + 1) j hj) (isSpaces_newline level))
      rw [printPretty]
      simpa using hi
  | object fields =>
    cases fields with
    | nil =>
      rw [printPretty]
      exact .object (.none .nil)
    | cons f fs =>
      obtain ⟨key, j⟩ := f
      obtain ⟨hj, hfs⟩ := h
      have hf := Writes.object (writesFields_printPrettyFields (level + 1) fs hfs key (isSpaces_newline (level + 1))
        (writes_printPretty (level + 1) j hj) (isSpaces_newline level))
      rw [printPretty]
      simpa using hf

/-- The items behind one that is written already, up to the blanks in front of the closing bracket. -/
theorem writesItems_printPrettyMore (level : Nat) (js : List Json) (h : PlainAll js) {a s b : List Char} {j : Json}
    (ha : IsSpaces a) (hj : Writes s j) (hb : IsSpaces b) :
    WritesItems (a ++ (s ++ ((printPrettyMore level js).toList ++ b))) (j :: js) := by
  cases js with
  | nil => exact .last ha hj hb
  | cons j' js =>
    obtain ⟨hj', hjs⟩ := h
    have hm := writesItems_printPrettyMore level js hjs (isSpaces_newline level) (writes_printPretty level j' hj') hb
    have hi := WritesItems.more ha hj .nil (List.cons_ne_nil j' js) hm
    rw [printPrettyMore]
    simpa using hi

theorem writesFields_printPrettyFields (level : Nat) (fs : List (String × Json)) (h : PlainFields fs) (key : String)
    {a s b : List Char} {j : Json} (ha : IsSpaces a) (hj : Writes s j) (hb : IsSpaces b) :
    WritesFields (a ++ ((quoted key).toList ++ ':' :: ' ' :: (s ++ ((printPrettyFields level fs).toList ++ b))))
      ((key, j) :: fs) := by
  have hk := writesKey_quoted key ha (show IsSpaces [' '] by decide)
  cases fs with
  | nil =>
    have hl := WritesFields.last hk hj hb
    rw [printPrettyFields]
    simpa using hl
  | cons f fs =>
    obtain ⟨key', j'⟩ := f
    obtain ⟨hj', hfs⟩ := h
    have hm := writesFields_printPrettyFields level fs hfs key' (isSpaces_newline level)
      (writes_printPretty level j' hj') hb
    have hf := WritesFields.more hk hj .nil (List.cons_ne_nil (key', j') fs) hm
    rw [printPrettyFields]
    simpa using hf

end

theorem parse?_of_writes {s : String} {j : Json} (h : Writes s.toList j) : parse? s = some j := by
  have read := parseChars?_of_writes h .nil .nil
  rwa [List.append_nil, List.nil_append] at read

end Emend.Json
