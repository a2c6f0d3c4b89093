import Emend.Proofs.Markup.Anonymous
import Emend.Proofs.Markup.Normal
import Emend.Proofs.Markup.PrintedText
import Emend.Proofs.Text.Finding

/-! # Reading back what normal documents print

Each reader takes from the text of a node in normal form exactly that node, whatever stands behind it, and
leaves the rest. So a document in normal form is what its text is read as, up to ids.
-/

namespace Emend.Markup

open Text (Step)

/-- The reader takes `a` and leaves `r`. -/
def Reads {α : Type} {s : List Char} (x : Except Fault (Step α s)) (a : α) (r : List Char) : Prop :=
  ∃ h, x = .ok ⟨a, r, h⟩

theorem isNameEnd_of_isBlank {c : Char} (h : Text.isBlank c = true) : isNameEnd c = true := by
  rw [isNameEnd, h, Bool.true_or]

theorem isBlank_eq_false_of_not_isNameEnd {c : Char} (h : isNameEnd c = false) : Text.isBlank c = false := by
  rw [isNameEnd, Bool.or_eq_false_iff] at h
  exact h.1

section

variable {b n : String} {s : List Char}

theorem blanksOf_append (hb : Text.allBlank b = true) (hs : ∀ c ∈ s.head?, Text.isBlank c = false) :
    blanksOf (b.toList ++ s) = b.toList :=
  Text.takeWhile_append_stop (Text.allBlank_iff.1 hb) hs

theorem afterBlanks_append (hb : Text.allBlank b = true) (hs : ∀ c ∈ s.head?, Text.isBlank c = false) :
    afterBlanks (b.toList ++ s) = s :=
  Text.dropWhile_append_stop (Text.allBlank_iff.1 hb) hs

theorem nameOf_append (hn : IsName n) (hs : ∀ c ∈ s.head?, isNameEnd c = true) :
    nameOf (n.toList ++ s) = n.toList :=
  Text.takeWhile_append_stop (fun c hc => by rw [hn.2 c hc, Bool.not_false])
    (fun c hc => by rw [hs c hc, Bool.not_true])

theorem afterName_append (hn : IsName n) (hs : ∀ c ∈ s.head?, isNameEnd c = true) :
    afterName (n.toList ++ s) = s :=
  Text.dropWhile_append_stop (fun c hc => by rw [hn.2 c hc, Bool.not_false])
    (fun c hc => by rw [hs c hc, Bool.not_true])

/-- Behind a name, blanks and what ends a name end it. -/
theorem isNameEnd_head_append (hb : Text.allBlank b = true) (hs : ∀ c ∈ s.head?, isNameEnd c = true) :
    ∀ c ∈ (b.toList ++ s).head?, isNameEnd c = true := by
  cases h : b.toList with
  | nil => exact hs
  | cons d t => exact Text.forall_head_cons (isNameEnd_of_isBlank (Text.allBlank_iff.1 hb d (h ▸ List.mem_cons_self)))

end

theorem Quote.ofChar?_char (q : Quote) : Quote.ofChar? q.char = some q := by
  cases q <;> rfl

theorem Quote.isBlank_char (q : Quote) : Text.isBlank q.char = false := by
  cases q <;> decide

theorem readAttribute_reads (leading : String) {s s₁ s₂ value rest : List Char} {q : Quote} (hn : nameOf s ≠ [])
    (h₁ : afterBlanks (afterName s) = '=' :: s₁) (h₂ : afterBlanks s₁ = q.char :: s₂)
    (hv : Text.breakOn? [q.char] s₂ = some (value, rest)) (hm : '<' ∉ value) :
    Reads (readAttribute leading s)
      { id := .none, leading, markers := [], key := String.ofList (nameOf s),
        beforeEquals := String.ofList (blanksOf (afterName s)), afterEquals := String.ofList (blanksOf s₁),
        quote := q, rawValue := String.ofList value } rest := by
  unfold readAttribute
  dsimp only
  rw [if_neg hn]
  split
  case h_2 h => exact absurd h₁ (h s₁)
  next t₁ e₁ =>
  cases h₁.symm.trans e₁
  split
  next e₂ => cases h₂.symm.trans e₂
  next c t₂ e₂ =>
  cases h₂.symm.trans e₂
  have hc : (String.ofList value).toList.contains '<' = false := by
    simpa using hm
  simp only [Quote.ofChar?_char, Text.readUntil_of_breakOn? hv, hc, Bool.false_eq_true, if_false]
  exact ⟨_, rfl⟩

theorem reads_attribute {a : Attribute} (h : a.Normal) (rest : List Char) :
    Reads (readAttribute a.leading (a.key.toList ++ (a.beforeEquals.toList ++ '=' ::
      (a.afterEquals.toList ++ a.quote.char :: (a.rawValue.toList ++ a.quote.char :: rest))))) a.anonymous rest := by
  have hk := isNameEnd_head_append (s := '=' :: (a.afterEquals.toList ++ a.quote.char :: (a.rawValue.toList ++
    a.quote.char :: rest))) h.beforeEquals (Text.forall_head_cons (by decide))
  have hn := nameOf_append h.key hk
  have ha := afterName_append h.key hk
  have hv : Text.breakOn? [a.quote.char] (a.rawValue.toList ++ a.quote.char :: rest) = some (a.rawValue.toList, rest) :=
    Text.breakOn?_append_mark [] List.not_mem_nil (Text.contains_singleton_eq_false_iff.2 h.quote)
  have hr := readAttribute_reads a.leading (by rw [hn]; exact h.key.1)
    (by rw [ha, afterBlanks_append h.beforeEquals (Text.forall_head_cons (by decide))])
    (afterBlanks_append h.afterEquals (Text.forall_head_cons a.quote.isBlank_char)) hv h.markup
  rw [ha, hn, blanksOf_append h.beforeEquals (Text.forall_head_cons (by decide)),
    blanksOf_append h.afterEquals (Text.forall_head_cons a.quote.isBlank_char)] at hr
  simp only [String.ofList_toList] at hr
  rw [Attribute.anonymous, h.markers]
  exact hr

theorem Reads.widen {α : Type} {s t : List Char} {x : Except Fault (Step α s)} {a : α} {r : List Char}
    (h : Reads x a r) (le : s.length ≤ t.length) : Reads (x.map (·.widen le)) a r := by
  obtain ⟨_, rfl⟩ := h
  exact ⟨_, rfl⟩

/-- An attribute in front of the end of a start tag. -/
theorem Reads.startTagEnd_cons {name : String} {start : List Char} {read : List Attribute} {s r r' : List Char}
    {a : Attribute} {found : StartTagEnd} (hb : blanksOf s ≠ []) (hs : afterBlanks s ≠ [])
    (hn : ∀ c ∈ (afterBlanks s).head?, isNameEnd c = false)
    (ha : Reads (readAttribute (String.ofList (blanksOf s)) (afterBlanks s)) a r)
    (hr : Reads (readStartTagEnd name start (a :: read) r) found r') :
    Reads (readStartTagEnd name start read s) found r' := by
  obtain ⟨_, ha⟩ := ha
  unfold readStartTagEnd
  dsimp only
  split
  next h => exact absurd (hn '/' (by rw [h]; rfl)) (by decide)
  next h => exact absurd (hn '>' (by rw [h]; rfl)) (by decide)
  next h => exact absurd h hs
  next =>
    have he : (String.ofList (blanksOf s)).isEmpty = false := by simpa [String.isEmpty_iff] using hb
    simp only [he, Bool.false_and, Bool.false_eq_true, if_false, ha]
    exact hr.widen _

theorem toList_printAttributes_cons (a : Attribute) (as : List Attribute) (s : List Char) :
    (printAttributes (a :: as)).toList ++ s = a.leading.toList ++ (a.key.toList ++ (a.beforeEquals.toList ++ '=' ::
      (a.afterEquals.toList ++ a.quote.char :: (a.rawValue.toList ++ a.quote.char ::
        ((printAttributes as).toList ++ s))))) := by
  simp [toList_printAttributes, Attribute.toList_print]

def tagEnd (selfClosing : Bool) : List Char := if selfClosing then ['/', '>'] else ['>']

theorem Attribute.Normal.key_ne_nil {a : Attribute} (h : a.Normal) (s : List Char) : a.key.toList ++ s ≠ [] := by
  intro hk
  exact h.key.1 (List.append_eq_nil_iff.1 hk).1

theorem IsName.head_append {n : String} (h : IsName n) (s : List Char) :
    ∀ c ∈ (n.toList ++ s).head?, isNameEnd c = false := by
  intro c hc
  cases hn : n.toList with
  | nil => exact absurd hn h.1
  | cons d t =>
    rw [hn] at hc
    cases hc
    exact h.2 _ (hn ▸ List.mem_cons_self)

theorem Attribute.Normal.afterBlanks_leading {a : Attribute} (h : a.Normal) (s : List Char) :
    afterBlanks (a.leading.toList ++ (a.key.toList ++ s)) = a.key.toList ++ s :=
  afterBlanks_append h.leading fun c hc => isBlank_eq_false_of_not_isNameEnd (h.key.head_append s c hc)

theorem Attribute.Normal.blanksOf_leading {a : Attribute} (h : a.Normal) (s : List Char) :
    blanksOf (a.leading.toList ++ (a.key.toList ++ s)) = a.leading.toList :=
  blanksOf_append h.leading fun c hc => isBlank_eq_false_of_not_isNameEnd (h.key.head_append s c hc)

theorem reads_tagEnd (name : String) (start : List Char) {beforeClose : String} (hb : Text.allBlank beforeClose = true)
    (selfClosing : Bool) (read : List Attribute) (rest : List Char) :
    Reads (readStartTagEnd name start read (beforeClose.toList ++ (tagEnd selfClosing ++ rest)))
      ⟨read.reverse, beforeClose, selfClosing⟩ rest := by
  have hs : ∀ c ∈ (tagEnd selfClosing ++ rest).head?, Text.isBlank c = false := by
    cases selfClosing <;> exact Text.forall_head_cons (by decide)
  have hs₁ := afterBlanks_append hb hs
  have hs₂ := blanksOf_append hb hs
  unfold readStartTagEnd
  simp only [hs₂, String.ofList_toList]
  split
  next e =>
    cases selfClosing with
    | false => cases hs₁.symm.trans e
    | true =>
      cases hs₁.symm.trans e
      exact ⟨_, rfl⟩
  next e =>
    cases selfClosing with
    | true => cases hs₁.symm.trans e
    | false =>
      cases hs₁.symm.trans e
      exact ⟨_, rfl⟩
  next e => cases selfClosing <;> cases hs₁.symm.trans e
  next h₁ h₂ _ =>
    cases selfClosing with
    | false => exact absurd hs₁ (h₂ rest)
    | true => exact absurd hs₁ (h₁ rest)

theorem reads_startTagEnd (name : String) (start : List Char) {attributes : List Attribute} {beforeClose : String}
    (h : ∀ a ∈ attributes, a.Normal ∧ a.leading ≠ "") (hb : Text.allBlank beforeClose = true) (selfClosing : Bool)
    (read : List Attribute) (rest : List Char) :
    Reads (readStartTagEnd name start read
        ((printAttributes attributes).toList ++ (beforeClose.toList ++ (tagEnd selfClosing ++ rest))))
      ⟨read.reverse ++ attributes.map Attribute.anonymous, beforeClose, selfClosing⟩ rest := by
  induction attributes generalizing read with
  | nil =>
    rw [List.map_nil, List.append_nil]
    exact reads_tagEnd name start hb selfClosing read rest
  | cons a as ih =>
    obtain ⟨ha, hl⟩ := h a List.mem_cons_self
    have hr := reads_attribute ha
      ((printAttributes as).toList ++ (beforeClose.toList ++ (tagEnd selfClosing ++ rest)))
    have hi := ih (fun x hx => h x (List.mem_cons_of_mem a hx)) (a.anonymous :: read)
    rw [List.reverse_cons, List.append_assoc] at hi
    rw [toList_printAttributes_cons]
    refine Reads.startTagEnd_cons ?_ ?_ ?_ ?_ hi
    · rw [ha.blanksOf_leading]
      simpa using hl
    · rw [ha.afterBlanks_leading]
      exact ha.key_ne_nil _
    · rw [ha.afterBlanks_leading]
      exact ha.key.head_append _
    · rw [ha.afterBlanks_leading, ha.blanksOf_leading, String.ofList_toList]
      exact hr

/-- An attribute in front of the end of the declaration. -/
theorem Reads.declarationEnd_cons {start : List Char} {read : List Attribute} {s r r' : List Char}
    {a : Attribute} {found : List Attribute × String} (hs : afterBlanks s ≠ [])
    (hn : ∀ c ∈ (afterBlanks s).head?, isNameEnd c = false)
    (ha : Reads (readAttribute (String.ofList (blanksOf s)) (afterBlanks s)) a r)
    (hr : Reads (readDeclarationEnd start (a :: read) r) found r') :
    Reads (readDeclarationEnd start read s) found r' := by
  obtain ⟨_, ha⟩ := ha
  unfold readDeclarationEnd
  dsimp only
  split
  next h => exact absurd (hn '?' (by rw [h]; rfl)) (by decide)
  next h => exact absurd h hs
  next =>
    simp only [ha]
    exact hr.widen _

theorem reads_declarationEnd {start : List Char} {attributes : List Attribute} {beforeClose : String}
    (h : ∀ a ∈ attributes, a.Normal) (hb : Text.allBlank beforeClose = true) (read : List Attribute)
    (rest : List Char) :
    Reads (readDeclarationEnd start read
        ((printAttributes attributes).toList ++ (beforeClose.toList ++ '?' :: '>' :: rest)))
      (read.reverse ++ attributes.map Attribute.anonymous, beforeClose) rest := by
  induction attributes generalizing read with
  | nil =>
    have hs : ∀ c ∈ ('?' :: '>' :: rest).head?, Text.isBlank c = false := Text.forall_head_cons (by decide)
    have hs₁ := afterBlanks_append hb hs
    have hs₂ := blanksOf_append hb hs
    simp only [List.map_nil, List.append_nil]
    change Reads (readDeclarationEnd start read (beforeClose.toList ++ '?' :: '>' :: rest)) _ _
    unfold readDeclarationEnd
    simp only [hs₂, String.ofList_toList]
    split
    next e =>
      cases hs₁.symm.trans e
      exact ⟨_, rfl⟩
    next e => cases hs₁.symm.trans e
    next h₁ _ => exact absurd hs₁ (h₁ rest)
  | cons a as ih =>
    have ha := h a List.mem_cons_self
    have hr := reads_attribute ha
      ((printAttributes as).toList ++ (beforeClose.toList ++ '?' :: '>' :: rest))
    have hi := ih (fun x hx => h x (List.mem_cons_of_mem a hx)) (a.anonymous :: read)
    rw [List.reverse_cons, List.append_assoc] at hi
    rw [toList_printAttributes_cons]
    refine Reads.declarationEnd_cons ?_ ?_ ?_ hi
    · rw [ha.afterBlanks_leading]
      exact ha.key_ne_nil _
    · rw [ha.afterBlanks_leading]
      exact ha.key.head_append _
    · rw [ha.afterBlanks_leading, ha.blanksOf_leading, String.ofList_toList]
      exact hr

theorem reads_comment {c : Comment} (h : c.Normal) (start rest : List Char) :
    Reads (readComment c.leading start (c.text.toList ++ '-' :: '-' :: '>' :: rest)) c.anonymous rest := by
  have hb : Text.breakOn? ['-', '-', '>'] (c.text.toList ++ '-' :: '-' :: '>' :: rest) = some (c.text.toList, rest) :=
    Text.breakOn?_append_mark ['-', '-'] (by decide) h.terminator
  unfold readComment
  rw [Text.readUntil_of_breakOn? hb]
  simp only [Step.map, String.ofList_toList]
  exact ⟨_, rfl⟩

theorem reads_cdata {d : CharData} (h : d.NormalCdata) (hd : d.cdata = true) (start rest : List Char) :
    Reads (readCdata d.leading start (d.text.toList ++ ']' :: ']' :: '>' :: rest)) d.anonymous rest := by
  have hb : Text.breakOn? [']', ']', '>'] (d.text.toList ++ ']' :: ']' :: '>' :: rest) = some (d.text.toList, rest) :=
    Text.breakOn?_append_mark [']', ']'] (by decide) h.terminator
  unfold readCdata
  rw [Text.readUntil_of_breakOn? hb, CharData.anonymous, hd]
  simp only [Step.map, String.ofList_toList]
  exact ⟨_, rfl⟩

theorem readInstruction_reads (leading : String) (start : List Char) {s content rest : List Char} (hn : nameOf s ≠ [])
    (hc : Text.breakOn? ['?', '>'] (afterName s) = some (content, rest)) :
    Reads (readInstruction leading start s)
      { id := .none, leading, target := String.ofList (nameOf s), content := String.ofList content } rest := by
  unfold readInstruction
  rw [if_neg hn, Text.readUntil_of_breakOn? hc]
  exact ⟨_, rfl⟩

theorem reads_instruction {i : Instruction} (h : i.Normal) (start rest : List Char) :
    Reads (readInstruction i.leading start (i.target.toList ++ (i.content.toList ++ '?' :: '>' :: rest)))
      i.anonymous rest := by
  have he : ∀ c ∈ (i.content.toList ++ '?' :: '>' :: rest).head?, isNameEnd c = true := by
    cases hc : i.content.toList with
    | nil => exact Text.forall_head_cons (by decide)
    | cons c s => exact Text.forall_head_cons (h.content c (by rw [hc]; rfl))
  have hn := nameOf_append h.target he
  have hr := readInstruction_reads i.leading start (by rw [hn]; exact h.target.1)
    (by rw [afterName_append h.target he]; exact Text.breakOn?_append_mark ['?'] (by decide) h.terminator)
  rw [hn] at hr
  simp only [String.ofList_toList] at hr
  exact hr

theorem breakDocType_append {quote : Option Char} {depth : Nat} {s body rest : List Char}
    (h : breakDocType quote depth s = some (body, rest)) (t : List Char) :
    breakDocType quote depth (s ++ t) = some (body, rest ++ t) := by
  induction s generalizing quote depth body rest with
  | nil => cases h
  | cons c s ih =>
    cases quote with
    | some q =>
      simp only [breakDocType, Option.map_eq_some_iff] at h
      obtain ⟨⟨b, r⟩, hb, he⟩ := h
      cases he
      simp [breakDocType, ih hb]
    | none =>
      simp only [breakDocType, List.cons_append] at h ⊢
      split at h
      next hc =>
        cases h
        rw [if_pos hc]
      next hc =>
        obtain ⟨⟨b, r⟩, hb, he⟩ := Option.map_eq_some_iff.1 h
        cases he
        rw [if_neg hc, ih hb]
        rfl

theorem reads_docType {d : DocType} (h : d.Normal) (start rest : List Char) :
    Reads (readDocType d.leading start (d.body.toList ++ '>' :: rest)) d.anonymous rest := by
  have hb := breakDocType_append h.body rest
  rw [List.append_assoc] at hb
  unfold readDocType
  split
  next e => cases hb.symm.trans e
  next e =>
    cases hb.symm.trans e
    simp only [String.ofList_toList]
    exact ⟨_, rfl⟩

theorem readClosing_reads (leading : String) (start : List Char) {s rest : List Char}
    (h : afterBlanks (afterName s) = '>' :: rest) :
    Reads (readClosing leading (String.ofList (nameOf s)) start s)
      { id := .none, leading, name := String.ofList (nameOf s),
        beforeClose := String.ofList (blanksOf (afterName s)) } rest := by
  unfold readClosing
  split
  next e =>
    cases h.symm.trans e
    rw [if_pos rfl]
    exact ⟨_, rfl⟩
  next e => exact absurd h (e rest)

theorem reads_closing {name : String} {c : Closing} (hn : IsName name) (h : c.Normal name) (start rest : List Char) :
    Reads (readClosing c.leading name start (c.name.toList ++ (c.beforeClose.toList ++ '>' :: rest)))
      c.anonymous rest := by
  obtain rfl := h.name
  have he := isNameEnd_head_append (s := '>' :: rest) h.beforeClose (Text.forall_head_cons (by decide))
  have hb : ∀ d ∈ ('>' :: rest).head?, Text.isBlank d = false := Text.forall_head_cons (by decide)
  have hr := readClosing_reads c.leading start (by rw [afterName_append hn he, afterBlanks_append h.beforeClose hb])
  rw [nameOf_append hn he, afterName_append hn he, blanksOf_append h.beforeClose hb] at hr
  simp only [String.ofList_toList] at hr
  exact hr

end Emend.Markup
