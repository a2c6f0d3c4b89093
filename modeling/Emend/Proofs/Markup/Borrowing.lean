import Emend.Proofs.Markup.Escaping

/-! # Texts that are handed on

Escaping and decoding put a text together anew only if it holds a character that they look for. Any other text
is handed on as it is, which comes to the same.
-/

namespace Emend.Markup

inductive Passed where
  | borrowed (s : String)
  | rebuilt (s : String)

namespace Passed

def text : Passed → String
  | borrowed s => s
  | rebuilt s => s

/-- The text itself if it holds none of the marks, and what is built from it otherwise. -/
def of (marks : List Char) (build : String → String) (s : String) : Passed :=
  if s.toList.any (marks.contains ·) then rebuilt (build s) else borrowed s

theorem text_of {marks : List Char} {build : String → String} (plain : ∀ s, (∀ c ∈ s.toList, c ∉ marks) → build s = s)
    (s : String) : (of marks build s).text = build s := by
  unfold of
  split
  · rfl
  next none =>
    apply Eq.symm
    apply plain
    intro c hc marked
    exact none (List.any_eq_true.2 ⟨c, hc, List.contains_iff_mem.2 marked⟩)

end Passed

def passText : String → Passed := .of ['&', '<', '>'] escapeText

def passAttribute (q : Quote) : String → Passed := .of ['&', '<', q.char] (escapeAttribute q)

def passDecoded : String → Passed := .of ['&'] unescape

theorem flatMap_eq_self {write : Char → List Char} {s : List Char} (h : ∀ c ∈ s, write c = [c]) :
    s.flatMap write = s := by
  induction s with
  | nil => rfl
  | cons c s ih =>
    rw [List.flatMap_cons, h c List.mem_cons_self, ih fun d hd => h d (List.mem_cons_of_mem c hd)]
    rfl

theorem text_passText (v : String) : (passText v).text = escapeText v := by
  apply Passed.text_of
  intro s plain
  rw [escapeText, flatMap_eq_self, String.ofList_toList]
  intro c hc
  have hm := plain c hc
  obtain rfl | rfl | rfl | ⟨-, -, -, e⟩ := escapeTextChar_cases c
  · simp at hm
  · simp at hm
  · simp at hm
  · exact e

theorem text_passAttribute (q : Quote) (v : String) : (passAttribute q v).text = escapeAttribute q v := by
  apply Passed.text_of
  intro s plain
  rw [escapeAttribute, flatMap_eq_self, String.ofList_toList]
  intro c hc
  have hm := plain c hc
  obtain rfl | rfl | rfl | ⟨-, -, -, e⟩ := escapeAttributeChar_cases q c
  · simp at hm
  · simp at hm
  · simp at hm
  · exact e

theorem text_passDecoded (v : String) : (passDecoded v).text = unescape v := by
  apply Passed.text_of
  intro s plain
  rw [unescape, unescapeChars_eq_self, String.ofList_toList]
  intro hm
  exact plain '&' hm (List.mem_singleton.2 rfl)

/-- Decoding gives back what was escaped, and the escaped text holds nothing that ends the place it stands in: no
bracket in character data, no opening bracket and not its own quote in an attribute value. All three functions
come to the same whether they hand the text on or put it together anew. -/
theorem escaped_reads_back (v : String) :
    (unescape (escapeText v) = v ∧ '<' ∉ (escapeText v).toList ∧ '>' ∉ (escapeText v).toList) ∧
    (∀ q : Quote, unescape (escapeAttribute q v) = v ∧ '<' ∉ (escapeAttribute q v).toList ∧
      q.char ∉ (escapeAttribute q v).toList) ∧
    (passText v).text = escapeText v ∧ (∀ q, (passAttribute q v).text = escapeAttribute q v) ∧
      (passDecoded v).text = unescape v := by
  refine ⟨⟨?_, not_mem_escapeText v, close_not_mem_escapeText v⟩, ?_, text_passText v, fun q => text_passAttribute q v,
    text_passDecoded v⟩
  · have read := unescape_escapeText_append v (b := "") (by simp)
    rwa [String.append_empty, String.append_empty] at read
  · intro q
    exact ⟨unescape_escapeAttribute q v, not_mem_escapeAttribute q v⟩

/-- What looks like a reference comes back as it was written, and the quote with it. -/
example : unescape (passAttribute .single "it's &lt; & &#65;;").text = "it's &lt; & &#65;;" := by decide +kernel

end Emend.Markup
