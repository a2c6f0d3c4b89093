import Emend.Markup.Query
import Emend.Proofs.Text.Finding

/-! # Escaped text reads back

Each character is written as itself or as a reference to it, so that decoding takes the text apart character by
character. What is written holds neither a bracket nor the quote it stands in.
-/

namespace Emend.Markup

theorem unescapeChars_cons {c : Char} (h : c ≠ '&') (s : List Char) :
    unescapeChars (c :: s) = c :: unescapeChars s := by
  rw [unescapeChars, if_neg h]

theorem unescapeChars_reference {name : List Char} {c : Char} (hn : ';' ∉ name) (h : reference? name = some c)
    (s : List Char) : unescapeChars ('&' :: (name ++ ';' :: s)) = c :: unescapeChars s := by
  have hb : Text.breakOn? [';'] (name ++ ';' :: s) = some (name, s) :=
    Text.breakOn?_append_mark [] List.not_mem_nil (Text.contains_singleton_eq_false_iff.2 hn)
  rw [unescapeChars, if_pos rfl]
  split
  next e => cases hb.symm.trans e
  next e =>
    cases hb.symm.trans e
    rw [h]

theorem unescapeChars_eq_self {s : List Char} (h : '&' ∉ s) : unescapeChars s = s := by
  induction s with
  | nil => rw [unescapeChars]
  | cons c s ih =>
    rw [List.mem_cons, not_or] at h
    rw [unescapeChars_cons (Ne.symm h.1), ih h.2]

/-- The text writes the character: plainly, or as a reference to it. -/
inductive WritesChar (c : Char) : List Char → Prop
  | plain : c ≠ '&' → WritesChar c [c]
  | reference (name : List Char) : ';' ∉ name → reference? name = some c → WritesChar c ('&' :: (name ++ [';']))

theorem WritesChar.unescapeChars {c : Char} {w : List Char} (h : WritesChar c w) (s : List Char) :
    unescapeChars (w ++ s) = c :: unescapeChars s := by
  cases h with
  | plain hc => exact unescapeChars_cons hc s
  | reference name hn hr =>
    rw [List.cons_append, List.append_assoc]
    exact unescapeChars_reference hn hr s

theorem unescapeChars_flatMap {write : Char → List Char} (h : ∀ c, WritesChar c (write c)) (cs s : List Char) :
    unescapeChars (cs.flatMap write ++ s) = cs ++ unescapeChars s := by
  induction cs with
  | nil => rfl
  | cons c cs ih => rw [List.flatMap_cons, List.append_assoc, (h c).unescapeChars, ih, List.cons_append]

theorem escapeTextChar_eq_self {c : Char} (ha : c ≠ '&') (hl : c ≠ '<') (hg : c ≠ '>') : escapeTextChar c = [c] := by
  rw [escapeTextChar, if_neg ha, if_neg hl, if_neg hg]

/-- A character is one of the three that text does not hold plainly, or it is written as it is. -/
theorem escapeTextChar_cases (c : Char) :
    c = '&' ∨ c = '<' ∨ c = '>' ∨ c ≠ '&' ∧ c ≠ '<' ∧ c ≠ '>' ∧ escapeTextChar c = [c] := by
  by_cases ha : c = '&'
  · exact .inl ha
  by_cases hl : c = '<'
  · exact .inr (.inl hl)
  by_cases hg : c = '>'
  · exact .inr (.inr (.inl hg))
  exact .inr (.inr (.inr ⟨ha, hl, hg, escapeTextChar_eq_self ha hl hg⟩))

theorem writesChar_escapeTextChar (c : Char) : WritesChar c (escapeTextChar c) := by
  obtain rfl | rfl | rfl | ⟨ha, -, -, h⟩ := escapeTextChar_cases c
  · exact .reference "amp".toList (by decide) rfl
  · exact .reference "lt".toList (by decide) rfl
  · exact .reference "gt".toList (by decide) rfl
  · rw [h]
    exact .plain ha

theorem escapeAttributeChar_cases (q : Quote) (c : Char) :
    c = '&' ∨ c = '<' ∨ c = q.char ∨ c ≠ '&' ∧ c ≠ '<' ∧ c ≠ q.char ∧ escapeAttributeChar q c = [c] := by
  by_cases ha : c = '&'
  · exact .inl ha
  by_cases hl : c = '<'
  · exact .inr (.inl hl)
  by_cases hq : c = q.char
  · exact .inr (.inr (.inl hq))
  refine .inr (.inr (.inr ⟨ha, hl, hq, ?_⟩))
  rw [escapeAttributeChar, if_neg ha, if_neg hl, if_neg, if_neg]
  · rintro ⟨rfl, rfl⟩
    exact hq rfl
  · rintro ⟨rfl, rfl⟩
    exact hq rfl

theorem writesChar_escapeAttributeChar (q : Quote) (c : Char) : WritesChar c (escapeAttributeChar q c) := by
  obtain rfl | rfl | rfl | ⟨ha, -, -, h⟩ := escapeAttributeChar_cases q c
  · exact .reference "amp".toList (by decide) rfl
  · exact .reference "lt".toList (by decide) rfl
  · cases q with
    | double => exact .reference "quot".toList (by decide) rfl
    | single => exact .reference "apos".toList (by decide) rfl
  · rw [h]
    exact .plain ha

/-- Decoding what was escaped, and a text behind it without references. -/
theorem unescape_escapeText_append (v : String) {b : String} (h : '&' ∉ b.toList) :
    unescape (escapeText v ++ b) = v ++ b := by
  apply String.toList_injective
  simp [unescape, escapeText, unescapeChars_flatMap writesChar_escapeTextChar, unescapeChars_eq_self h]

theorem unescape_escapeAttribute (q : Quote) (v : String) : unescape (escapeAttribute q v) = v := by
  apply String.toList_injective
  have h := unescapeChars_flatMap (writesChar_escapeAttributeChar q) v.toList []
  rw [List.append_nil] at h
  simp [unescape, escapeAttribute, h, unescapeChars_eq_self]

theorem not_mem_escapeTextChar (c : Char) : '<' ∉ escapeTextChar c ∧ '>' ∉ escapeTextChar c := by
  obtain rfl | rfl | rfl | ⟨-, hl, hg, e⟩ := escapeTextChar_cases c
  · decide
  · decide
  · decide
  · rw [e, List.mem_singleton, List.mem_singleton]
    exact ⟨Ne.symm hl, Ne.symm hg⟩

theorem not_mem_escapeText (v : String) : '<' ∉ (escapeText v).toList := by
  intro h
  rw [escapeText, String.toList_ofList] at h
  obtain ⟨c, -, hc⟩ := List.mem_flatMap.1 h
  exact (not_mem_escapeTextChar c).1 hc

theorem close_not_mem_escapeText (v : String) : '>' ∉ (escapeText v).toList := by
  intro h
  rw [escapeText, String.toList_ofList] at h
  obtain ⟨c, -, hc⟩ := List.mem_flatMap.1 h
  exact (not_mem_escapeTextChar c).2 hc

theorem not_mem_escapeAttributeChar (q : Quote) (c : Char) :
    '<' ∉ escapeAttributeChar q c ∧ q.char ∉ escapeAttributeChar q c := by
  obtain rfl | rfl | rfl | ⟨-, hl, hq, e⟩ := escapeAttributeChar_cases q c
  · cases q <;> decide
  · cases q <;> decide
  · cases q <;> decide
  · rw [e, List.mem_singleton, List.mem_singleton]
    exact ⟨Ne.symm hl, Ne.symm hq⟩

theorem not_mem_escapeAttribute (q : Quote) (v : String) :
    '<' ∉ (escapeAttribute q v).toList ∧ q.char ∉ (escapeAttribute q v).toList := by
  rw [escapeAttribute, String.toList_ofList]
  constructor
  · intro h
    obtain ⟨c, -, hc⟩ := List.mem_flatMap.1 h
    exact (not_mem_escapeAttributeChar q c).1 hc
  · intro h
    obtain ⟨c, -, hc⟩ := List.mem_flatMap.1 h
    exact (not_mem_escapeAttributeChar q c).2 hc

/-- Blanks are written as they are, and anything else as something that is no blank. -/
theorem all_isBlank_escapeTextChar (c : Char) : (escapeTextChar c).all Text.isBlank = Text.isBlank c := by
  obtain rfl | rfl | rfl | ⟨-, -, -, e⟩ := escapeTextChar_cases c
  · rfl
  · rfl
  · rfl
  · rw [e, List.all_cons, List.all_nil, Bool.and_true]

theorem allBlank_escapeText (v : String) : Text.allBlank (escapeText v) = Text.allBlank v := by
  simp [Text.allBlank, escapeText, List.all_flatMap, all_isBlank_escapeTextChar]

end Emend.Markup
