import Emend.Proofs.Markup.Fidelity
import Emend.Proofs.Markup.ReparseTree

/-! # Reading back normal documents

The parts of a document begin with a bracket behind blanks, so that each is told from what stands before it.
-/

namespace Emend.Markup

open Text (Step)

/-- The reader finds `a` and leaves `r`. -/
def Finds {α : Type} {s : List Char} (x : Except Fault (Option (Step α s))) (a : α) (r : List Char) : Prop :=
  ∃ h, x = .ok (some ⟨a, r, h⟩)

theorem Reads.some_map_widen {α β : Type} {s t : List Char} {x : Except Fault (Step α s)} {a : α} {r : List Char}
    (h : Reads x a r) (f : α → β) (le : s.length ≤ t.length) :
    Finds (do let y ← x; return some ((y.map f).widen le)) (f a) r := by
  obtain ⟨_, rfl⟩ := h
  exact ⟨_, rfl⟩

theorem readRoot_of_whole {leading : String} {s rest : List Char} {tag : Tag}
    (h : Reads (readStartTag leading ('<' :: s) s) (.whole tag) rest) :
    readRoot leading ('<' :: s) = .ok (tag, rest) := by
  obtain ⟨_, h⟩ := h
  have hs : readStartTag leading ('<' :: s) (List.drop 1 ('<' :: s)) = _ := h
  unfold readRoot
  rw [hs]

theorem readRoot_of_opened {leading : String} {s rest : List Char} {o : OpenTag}
    (h : Reads (readStartTag leading ('<' :: s) s) (.opened o) rest) :
    readRoot leading ('<' :: s) = readContent o [] rest := by
  obtain ⟨_, h⟩ := h
  have hs : readStartTag leading ('<' :: s) (List.drop 1 ('<' :: s)) = _ := h
  unfold readRoot
  rw [hs]

/-- The root element is read from its text. -/
theorem Tag.readRoot_print {t : Tag} (ht : t.Sound) (hn : ∀ u ∈ Content.elementsBody t.content, u.Normal)
    (hd : t.depth ≤ maxDepth) (rest : List Char) :
    ∃ selfClosing r, t.print.toList ++ rest = t.leading.toList ++ '<' :: t.startTagText selfClosing r ∧
      readRoot t.leading ('<' :: t.startTagText selfClosing r) = .ok (t.anonymous, rest) := by
  obtain ⟨id, leading, markers, name, attributes, content, closing, beforeClose⟩ := t
  rw [Tag.depth] at hd
  cases content with
  | none =>
    refine ⟨true, rest, Tag.toList_print_normal_selfClosing rfl rest, readRoot_of_whole ?_⟩
    rw [← ht.anonymous_selfClosing rfl]
    exact ht.reads _ true rest
  | some items =>
    cases closing with
    | none => exact ht.body.elim
    | some close =>
      obtain ⟨hl, hsep, hc⟩ := ht.body
      rw [Content.depthBody] at hd
      refine ⟨false, _, Tag.toList_print_normal_body rfl rfl rest, ?_⟩
      rw [readRoot_of_opened (ht.reads _ false _), ← ht.anonymous_close rfl rfl]
      change readContent (Tag.opened _ _) [] _ = _
      rw [Content.readContent_printAll items hn hl hsep (by rw [List.length_nil]; omega),
        readContent_closing ht.name hc]
      rfl

def Misc.leading : Misc → String
  | comment c => c.leading
  | instruction i => i.leading
  | docType d => d.leading

theorem Misc.Normal.leading {m : Misc} (h : m.Normal) : Text.allBlank m.leading = true := by
  cases m with
  | comment c => exact Comment.Normal.leading h
  | instruction i => exact Instruction.Normal.leading h
  | docType d => exact DocType.Normal.leading h

def Misc.body (rest : List Char) : Misc → List Char
  | comment c => '<' :: '!' :: '-' :: '-' :: (c.text.toList ++ '-' :: '-' :: '>' :: rest)
  | instruction i => '<' :: '?' :: (i.target.toList ++ (i.content.toList ++ '?' :: '>' :: rest))
  | docType d => "<!DOCTYPE".toList ++ (d.body.toList ++ '>' :: rest)

theorem Misc.toList_print_append (m : Misc) (rest : List Char) :
    m.print.toList ++ rest = m.leading.toList ++ m.body rest := by
  cases m with
  | comment c =>
    rw [Misc.print, Comment.toList_print]
    simp only [List.append_assoc, List.cons_append, List.nil_append]
    rfl
  | instruction i =>
    rw [Misc.print, Instruction.toList_print]
    simp only [List.append_assoc, List.cons_append, List.nil_append]
    rfl
  | docType d =>
    rw [Misc.print, DocType.toList_print]
    simp only [List.append_assoc, List.cons_append, List.nil_append]
    rfl

theorem Misc.head?_body (m : Misc) (rest : List Char) : (m.body rest).head? = some '<' := by
  cases m <;> rfl

section

variable {leading : String} {s rest : List Char}

theorem readMisc_comment {c : Comment} (h : Reads (readComment leading ('<' :: '!' :: '-' :: '-' :: s) s) c rest) :
    Finds (readMisc leading ('<' :: '!' :: '-' :: '-' :: s)) (.comment c) rest := by
  unfold readMisc
  split
  next e =>
    cases e
    exact h.some_map_widen _ _
  next e => cases e

theorem readMisc_instruction {i : Instruction} (h : Reads (readInstruction leading ('<' :: '?' :: s) s) i rest) :
    Finds (readMisc leading ('<' :: '?' :: s)) (.instruction i) rest := by
  unfold readMisc
  split
  next e => cases e
  split
  next e =>
    cases e
    exact h.some_map_widen _ _
  next e => cases e

theorem readPrologItem_docType {d : DocType} (h : Reads (readDocType leading ("<!DOCTYPE".toList ++ s) s) d rest) :
    Finds (readPrologItem leading ("<!DOCTYPE".toList ++ s)) (.docType d) rest := by
  unfold readPrologItem
  split
  next e =>
    cases e
    exact h.some_map_widen _ _
  next e => cases e

theorem readPrologItem_eq_readMisc (h : Text.after? "<!DOCTYPE".toList s = none) :
    readPrologItem leading s = readMisc leading s := by
  unfold readPrologItem
  split
  next e => cases h.symm.trans e
  next => rfl

end

theorem Misc.Normal.readMisc {m : Misc} (h : m.Normal) (hd : m.isDocType = false) (rest : List Char) :
    Finds (readMisc m.leading (m.body rest)) m.anonymous rest := by
  cases m with
  | comment c => exact readMisc_comment (reads_comment h _ rest)
  | instruction i => exact readMisc_instruction (reads_instruction h _ rest)
  | docType d => cases hd

theorem Misc.Normal.readPrologItem {m : Misc} (h : m.Normal) (rest : List Char) :
    Finds (readPrologItem m.leading (m.body rest)) m.anonymous rest := by
  cases m with
  | comment c =>
    have hm := h.readMisc rfl rest
    rwa [← readPrologItem_eq_readMisc rfl] at hm
  | instruction i =>
    have hm := h.readMisc rfl rest
    rwa [← readPrologItem_eq_readMisc rfl] at hm
  | docType d => exact readPrologItem_docType (reads_docType h _ rest)

theorem readPrologItem_eq_none {leading : String} {s : List Char} (hd : Text.after? "<!DOCTYPE".toList s = none)
    (hc : Text.after? ['<', '!', '-', '-'] s = none) (hi : Text.after? ['<', '?'] s = none) :
    readPrologItem leading s = .ok none := by
  rw [readPrologItem_eq_readMisc hd]
  unfold readMisc
  split
  next e => cases hc.symm.trans e
  split
  next e => cases hi.symm.trans e
  rfl

/-- Blanks in front of a bracket end there. -/
theorem isBlank_head_of_bracket {s : List Char} (hs : s.head? = some '<') :
    ∀ c ∈ s.head?, Text.isBlank c = false := by
  rw [hs]
  rintro c ⟨⟩
  rfl

theorem readPrologItems_cons {read : List Misc} {s rest : List Char} {m : Misc}
    (h : Finds (readPrologItem (String.ofList (blanksOf s)) (afterBlanks s)) m rest) :
    readPrologItems read s = readPrologItems (m :: read) rest := by
  obtain ⟨_, h⟩ := h
  rw [readPrologItems, h]

theorem readPrologItems_end {read : List Misc} {s : List Char}
    (h : readPrologItem (String.ofList (blanksOf s)) (afterBlanks s) = .ok none) :
    readPrologItems read s = .ok (read.reverse, String.ofList (blanksOf s), afterBlanks s) := by
  rw [readPrologItems, h]

theorem readPrologItems_print {misc : List Misc} (hm : ∀ m ∈ misc, m.Normal) (read : List Misc) {leading : String}
    (hb : Text.allBlank leading = true) {s : List Char} (hr : readPrologItem leading ('<' :: s) = .ok none) :
    readPrologItems read ((printMisc misc).toList ++ (leading.toList ++ '<' :: s)) =
      .ok (read.reverse ++ misc.map Misc.anonymous, leading, '<' :: s) := by
  induction misc generalizing read with
  | nil =>
    have hs := isBlank_head_of_bracket (s := '<' :: s) rfl
    change readPrologItems read (leading.toList ++ '<' :: s) = _
    rw [readPrologItems_end, afterBlanks_append hb hs, blanksOf_append hb hs, String.ofList_toList, List.map_nil,
      List.append_nil]
    rw [afterBlanks_append hb hs, blanksOf_append hb hs, String.ofList_toList]
    exact hr
  | cons m ms ih =>
    have hn := hm m List.mem_cons_self
    have hs := isBlank_head_of_bracket (m.head?_body ((printMisc ms).toList ++ (leading.toList ++ '<' :: s)))
    have hf := hn.readPrologItem ((printMisc ms).toList ++ (leading.toList ++ '<' :: s))
    rw [toList_printMisc, List.flatMap_cons, ← toList_printMisc, List.append_assoc, Misc.toList_print_append,
      readPrologItems_cons (m := m.anonymous), ih fun x hx => hm x (List.mem_cons_of_mem m hx)]
    · rw [List.reverse_cons, List.append_assoc]
      rfl
    · rw [blanksOf_append hn.leading hs, afterBlanks_append hn.leading hs, String.ofList_toList]
      exact hf

theorem readEpilog_cons {read : List Misc} {s rest : List Char} {m : Misc} (hs : afterBlanks s ≠ [])
    (h : Finds (readMisc (String.ofList (blanksOf s)) (afterBlanks s)) m rest) :
    readEpilog read s = readEpilog (m :: read) rest := by
  obtain ⟨_, h⟩ := h
  rw [readEpilog, if_neg hs, h]

theorem readEpilog_print {misc : List Misc} (hm : ∀ m ∈ misc, m.Normal ∧ m.isDocType = false) (read : List Misc)
    {eof : String} (hb : Text.allBlank eof = true) :
    readEpilog read ((printMisc misc).toList ++ eof.toList) = .ok (read.reverse ++ misc.map Misc.anonymous, eof) := by
  induction misc generalizing read with
  | nil =>
    have hs : ∀ c ∈ ([] : List Char).head?, Text.isBlank c = false := by
      intro c hc
      cases hc
    have ha := afterBlanks_append hb hs
    have hl := blanksOf_append hb hs
    rw [List.append_nil] at ha hl
    change readEpilog read eof.toList = _
    rw [readEpilog, if_pos ha, hl, String.ofList_toList, List.map_nil, List.append_nil]
  | cons m ms ih =>
    obtain ⟨hn, ht⟩ := hm m List.mem_cons_self
    have hb := m.head?_body ((printMisc ms).toList ++ eof.toList)
    have hs := isBlank_head_of_bracket hb
    have hr := hn.readMisc ht ((printMisc ms).toList ++ eof.toList)
    have ha := afterBlanks_append hn.leading hs
    rw [toList_printMisc, List.flatMap_cons, ← toList_printMisc, List.append_assoc, Misc.toList_print_append,
      readEpilog_cons (m := m.anonymous), ih fun x hx => hm x (List.mem_cons_of_mem m hx)]
    · rw [List.reverse_cons, List.append_assoc]
      rfl
    · rw [ha]
      intro he
      rw [he] at hb
      cases hb
    · rw [blanksOf_append hn.leading hs, ha, String.ofList_toList]
      exact hr

theorem afterDeclarationStart?_of_head {r : List Char} (h : ∃ c ∈ r.head?, Text.isBlank c = true ∨ c = '?') :
    afterDeclarationStart? ("<?xml".toList ++ r) = some r := by
  rw [afterDeclarationStart?, Text.after?_append, Option.filter_some]
  cases r with
  | nil =>
    obtain ⟨c, hc, _⟩ := h
    cases hc
  | cons c r =>
    obtain ⟨_, ⟨⟩, h⟩ := h
    rcases h with h | rfl
    · rw [if_pos (by simp [h])]
    · rw [if_pos (by simp)]

/-- What stands behind the opening of a declaration. -/
theorem Declaration.Normal.exists_head {d : Declaration} (h : d.Normal) (rest : List Char) :
    ∃ c ∈ ((printAttributes d.attributes).toList ++ (d.beforeClose.toList ++ '?' :: '>' :: rest)).head?,
      Text.isBlank c = true ∨ c = '?' := by
  cases e : d.attributes with
  | nil =>
    change ∃ c ∈ (d.beforeClose.toList ++ '?' :: '>' :: rest).head?, _
    cases hb : d.beforeClose.toList with
    | nil => exact ⟨'?', rfl, .inr rfl⟩
    | cons c s => exact ⟨c, rfl, .inl (Text.allBlank_iff.1 h.beforeClose c (by rw [hb]; exact List.mem_cons_self))⟩
  | cons a as =>
    have hl := h.first a (by rw [e]; rfl)
    have hn := h.attributes a (by rw [e]; exact List.mem_cons_self)
    rw [toList_printAttributes_cons]
    cases hs : a.leading.toList with
    | nil => exact absurd (String.toList_eq_nil_iff.1 hs) hl
    | cons c s => exact ⟨c, rfl, .inl (Text.allBlank_iff.1 hn.leading c (by rw [hs]; exact List.mem_cons_self))⟩

theorem readDeclaration?_of_reads {s r rest : List Char} {found : List Attribute × String}
    (h : afterDeclarationStart? (afterBlanks s) = some r)
    (hr : Reads (readDeclarationEnd (afterBlanks s) [] r) found rest) :
    readDeclaration? s = .ok (some {
      id := .none
      leading := String.ofList (blanksOf s)
      attributes := found.1
      beforeClose := found.2 }, rest) := by
  obtain ⟨_, hr⟩ := hr
  unfold readDeclaration?
  dsimp only
  rw [h]
  dsimp only
  rw [hr]
  rfl

theorem readDeclaration?_eq_none {s : List Char} (h : afterDeclarationStart? (afterBlanks s) = none) :
    readDeclaration? s = .ok (none, s) := by
  unfold readDeclaration?
  dsimp only
  rw [h]

theorem Declaration.Normal.reads {d : Declaration} (h : d.Normal) (rest : List Char) :
    readDeclaration? (d.print.toList ++ rest) = .ok (some d.anonymous, rest) := by
  have hs : d.print.toList ++ rest = d.leading.toList ++ ("<?xml".toList ++ ((printAttributes d.attributes).toList ++
      (d.beforeClose.toList ++ '?' :: '>' :: rest))) := by
    rw [Declaration.toList_print]
    simp only [List.append_assoc, List.cons_append, List.nil_append]
  have hb := isBlank_head_of_bracket (s := "<?xml".toList ++ ((printAttributes d.attributes).toList ++
      (d.beforeClose.toList ++ '?' :: '>' :: rest))) rfl
  have hr := readDeclaration?_of_reads (s := d.print.toList ++ rest) (by
    rw [hs, afterBlanks_append h.leading hb]
    exact afterDeclarationStart?_of_head (h.exists_head rest)) (reads_declarationEnd h.attributes h.beforeClose [] rest)
  rw [hr, hs, blanksOf_append h.leading hb, String.ofList_toList]
  rfl

/-- An instruction that begins as a declaration does looks like one. -/
theorem Instruction.Normal.looksLikeDeclaration {i : Instruction} (h : i.Normal) {rest r : List Char}
    (hr : afterDeclarationStart? ((Misc.instruction i).body rest) = some r) :
    (Misc.instruction i).LooksLikeDeclaration := by
  have ht := eq_of_afterDeclarationStart? hr
  have hp := (Option.filter_eq_some_iff.1 hr).2
  have he : i.target.toList ++ (i.content.toList ++ '?' :: '>' :: rest) = "xml".toList ++ r := by
    have : ("<?xml".toList ++ r) = '<' :: '?' :: ("xml".toList ++ r) := rfl
    rw [this] at ht
    exact List.cons.inj (List.cons.inj ht).2 |>.2
  have hd : ∀ c ∈ r.head?, Text.isBlank c = true ∨ c = '?' := by
    cases r with
    | nil => cases hp
    | cons c r => exact Text.forall_head_cons (by simpa using hp)
  have hr₁ : ∀ c ∈ r.head?, isNameEnd c = true := by
    intro c hc
    rcases hd c hc with hb | rfl
    · exact isNameEnd_of_isBlank hb
    · rfl
  have hc₁ : ∀ c ∈ (i.content.toList ++ '?' :: '>' :: rest).head?, isNameEnd c = true := by
    cases hc : i.content.toList with
    | nil => exact Text.forall_head_cons (by decide)
    | cons c s => exact Text.forall_head_cons (h.content c (by rw [hc]; rfl))
  have hx : IsName "xml" := by decide
  -- names are read alike from both writings of the text
  have hn := nameOf_append h.target hc₁
  have ha := afterName_append h.target hc₁
  rw [he, nameOf_append hx hr₁] at hn
  rw [he, afterName_append hx hr₁] at ha
  refine ⟨String.toList_injective hn.symm, ?_⟩
  intro c hc
  refine hd c ?_
  rw [ha]
  cases hs : i.content.toList with
  | nil =>
    rw [hs] at hc
    cases hc
  | cons d s =>
    rw [hs] at hc
    exact hc

theorem afterDeclarationStart?_eq_none {c : Char} {s : List Char} (h : c ≠ '?') :
    afterDeclarationStart? ('<' :: c :: s) = none := by
  rw [afterDeclarationStart?, show "<?xml".toList = '<' :: '?' :: "xml".toList from rfl,
    after?_bracket_eq_none h.symm]
  rfl

/-- Without a declaration none is found, be there other items or not. -/
theorem readDeclaration?_print {misc : List Misc} (hm : ∀ m ∈ misc, m.Normal)
    (hf : ∀ m ∈ misc.head?, ¬m.LooksLikeDeclaration) {leading : String} (hb : Text.allBlank leading = true) {c : Char}
    (hi : c ≠ '?') (s : List Char) :
    readDeclaration? ((printMisc misc).toList ++ (leading.toList ++ '<' :: c :: s)) =
      .ok (none, (printMisc misc).toList ++ (leading.toList ++ '<' :: c :: s)) := by
  refine readDeclaration?_eq_none ?_
  cases misc with
  | nil =>
    change afterDeclarationStart? (afterBlanks (leading.toList ++ '<' :: c :: s)) = none
    rw [afterBlanks_append hb (isBlank_head_of_bracket rfl)]
    exact afterDeclarationStart?_eq_none hi
  | cons m ms =>
    have hn := hm m List.mem_cons_self
    have hl := hf m rfl
    rw [toList_printMisc, List.flatMap_cons, List.append_assoc, Misc.toList_print_append,
      afterBlanks_append hn.leading (isBlank_head_of_bracket (m.head?_body _))]
    cases m with
    | comment c => exact afterDeclarationStart?_eq_none (by decide)
    | instruction i =>
      rw [Option.eq_none_iff_forall_ne_some]
      intro r hr
      exact hl (Instruction.Normal.looksLikeDeclaration hn hr)
    | docType d => exact afterDeclarationStart?_eq_none (by decide)

theorem readDocument_of_parts {path : FilePath} {kind : SourceKind} {s s₁ s₂ s₃ : List Char}
    {declaration : Option Declaration} {misc epilog : List Misc} {leading eof : String} {c : Char} {root : Tag}
    {bom : Bool} (hb : (s.head? == some bomChar) = bom)
    (hd : readDeclaration? (if bom then s.drop 1 else s) = .ok (declaration, s₁))
    (hm : readPrologItems [] s₁ = .ok (misc, leading, '<' :: c :: s₂)) (hc : c ≠ '/')
    (hr : readRoot leading ('<' :: c :: s₂) = .ok (root, s₃)) (he : readEpilog [] s₃ = .ok (epilog, eof)) :
    readDocument path kind s = .ok {
      id := .none
      path
      kind
      markers := []
      bom
      prolog := { id := .none, declaration, misc }
      root
      epilog
      eof } := by
  subst hb
  have h₁ : Text.startsWith ('<' :: c :: s₂) ['<'] = true := rfl
  have h₂ : Text.startsWith ('<' :: c :: s₂) ['<', '/'] = false := by
    rw [Text.startsWith, after?_bracket_eq_none hc.symm]
    rfl
  have hc' : (!Text.startsWith ('<' :: c :: s₂) ['<'] || Text.startsWith ('<' :: c :: s₂) ['<', '/']) ≠ true := by
    rw [h₁, h₂]
    decide
  unfold readDocument
  refine bind_eq_ok.2 ⟨_, hd, bind_eq_ok.2 ⟨_, hm, ?_⟩⟩
  dsimp only
  rw [if_neg (List.cons_ne_nil _ _), if_neg hc']
  exact bind_eq_ok.2 ⟨_, hr, bind_eq_ok.2 ⟨_, he, rfl⟩⟩

def Document.body (d : Document) : List Char :=
  d.prolog.declaration.elim [] (·.print.toList) ++ ((printMisc d.prolog.misc).toList ++
    (d.root.print.toList ++ ((printMisc d.epilog).toList ++ d.eof.toList)))

theorem Document.toList_print (d : Document) : d.print.toList = (if d.bom then [bomChar] else []) ++ d.body := by
  rw [Document.print, Document.body]
  cases d.bom <;> simp [Prolog.toList_print]

/-- Blanks and then a bracket are no byte order mark. -/
theorem head?_ne_bom {b : String} (hb : Text.allBlank b = true) (s : List Char) :
    ((b.toList ++ '<' :: s).head? == some bomChar) = false := by
  cases h : b.toList with
  | nil => rfl
  | cons c t =>
    have hc : bomChar ∉ b.toList := Text.not_mem_of_allBlank hb rfl
    rw [beq_eq_false_iff_ne]
    rintro ⟨⟩
    exact hc (by rw [h]; exact List.mem_cons_self)

theorem Document.Readable.head?_body {d : Document} (h : d.Readable) : (d.body.head? == some bomChar) = false := by
  unfold Document.body
  cases hd : d.prolog.declaration with
  | some x =>
    have hx := (h.declaration x hd).leading
    rw [Option.elim_some, Declaration.toList_print]
    simp only [List.append_assoc]
    exact head?_ne_bom hx _
  | none =>
    rw [Option.elim_none, List.nil_append]
    cases hm : d.prolog.misc with
    | nil =>
      obtain ⟨s, hs⟩ := d.root.exists_bracket
      have hl := (h.elements _ d.root.mem_elements_self).leading
      change ((d.root.print.toList ++ _).head? == _) = false
      rw [hs, List.append_assoc]
      exact head?_ne_bom hl _
    | cons m ms =>
      have hl := (h.misc m (by rw [hm]; exact List.mem_cons_self)).leading
      rw [toList_printMisc, List.flatMap_cons, List.append_assoc, Misc.toList_print_append]
      obtain ⟨s, hs⟩ := List.head?_eq_some_iff.1 (m.head?_body (List.flatMap (·.print.toList) ms ++
        (d.root.print.toList ++ ((printMisc d.epilog).toList ++ d.eof.toList))))
      rw [hs]
      exact head?_ne_bom hl s

theorem Document.Readable.readDeclaration? {d : Document} (h : d.Readable) {c : Char} (hi : c ≠ '?') (s : List Char) :
    Emend.Markup.readDeclaration? (d.prolog.declaration.elim [] (·.print.toList) ++
        ((printMisc d.prolog.misc).toList ++ (d.root.leading.toList ++ '<' :: c :: s))) =
      .ok (d.prolog.declaration.map Declaration.anonymous,
        (printMisc d.prolog.misc).toList ++ (d.root.leading.toList ++ '<' :: c :: s)) := by
  have hl := (h.elements _ d.root.mem_elements_self).leading
  cases hd : d.prolog.declaration with
  | some x => exact (h.declaration x hd).reads _
  | none => exact readDeclaration?_print h.misc (h.first hd) hl hi s

theorem Document.Readable.readDocument {d : Document} (h : d.Readable) :
    Emend.Markup.readDocument d.path d.kind d.print.toList = .ok d.anonymous := by
  have ht := h.elements _ d.root.mem_elements_self
  have hn : ∀ u ∈ Content.elementsBody d.root.content, u.Normal := fun u hu =>
    Tag.normal_iff_sound.2 ⟨h.elements u (Tag.mem_elements_iff.2 (.inr (Content.mem_elementsBody_iff.1 hu))),
      h.inner u hu⟩
  obtain ⟨selfClosing, r, hs, hr⟩ := d.root.readRoot_print ht hn h.depth
    ((printMisc d.epilog).toList ++ d.eof.toList)
  -- the bracket of the root begins nothing that may stand in front of it
  have hi : readPrologItem d.root.leading ('<' :: d.root.startTagText selfClosing r) = .ok none :=
    readPrologItem_eq_none (ht.after?_eq_none (by decide) h.noDocType _ _)
      (ht.after?_eq_none (by decide) h.noComment _ _) (ht.after?_question_eq_none _ _)
  obtain ⟨c, s, he, -, hc, hq⟩ := ht.exists_cons selfClosing r
  rw [he] at hs hr hi
  have hd := h.readDeclaration? hq s
  rw [← hs] at hd
  have hp := readPrologItems_print h.misc [] ht.leading hi
  rw [← hs] at hp
  have hb : (d.print.toList.head? == some bomChar) = d.bom := by
    rw [Document.toList_print]
    cases hb : d.bom with
    | true => rfl
    | false => exact h.head?_body
  have hd' : (if d.bom then d.print.toList.drop 1 else d.print.toList) = d.body := by
    rw [Document.toList_print]
    cases d.bom <;> rfl
  have hm := h.markers
  rw [readDocument_of_parts hb (by rw [hd']; exact hd) hp hc hr (readEpilog_print h.epilog [] h.eof)]
  simp only [List.reverse_nil, List.nil_append]
  rw [Document.anonymous, hm]
  rfl

theorem Document.Normal.readDocument {d : Document} (h : d.Normal) :
    Emend.Markup.readDocument d.path d.kind d.print.toList = .ok d.anonymous := h.readable.readDocument

/-- Parsing what a document in normal form prints gives back that document, up to ids. -/
theorem parse_print_of_normal {d : Document} (h : d.Normal) (ids : Supply) :
    ∃ d' ids', (Document.parse d.path d.print).run.run ids = (.ok d', ids') ∧ d'.anonymous = d.anonymous := by
  have hr := h.readDocument
  rw [h.kind] at hr
  refine ⟨(d.anonymous.number.run ids).1, (d.anonymous.number.run ids).2, run_parse_eq_ok_iff.2 ⟨_, hr, rfl⟩, ?_⟩
  rw [Document.anonymous_number, Document.anonymous_anonymous]

/-- Text next to an element, a section that looks like markup, and an element without content. -/
def normalDocument : Document where
  id := .none
  path := ⟨"a.xml"⟩
  kind := .xml
  markers := []
  bom := true
  prolog := {
    id := .none
    declaration := some {
      id := .none
      leading := ""
      attributes := [⟨.none, " ", [], "v", " ", "", .single, "1"⟩]
      beforeClose := " " }
    misc := [.docType { id := .none, leading := "\n", body := " a [<!ENTITY b \">\">]" }] }
  root := ⟨.none, "\n", [], "a", [⟨.none, " ", [], "x", "", " ", .double, "'&b;"⟩], some [
    .charData ⟨.none, "", false, " b\n"⟩,
    .tag ⟨.none, "", [], "e", [], none, none, " "⟩,
    .charData ⟨.none, "\t", true, "<]]"⟩], some ⟨.none, "\n", "a", ""⟩, ""⟩
  epilog := [.comment { id := .none, leading := " ", text := "-" }]
  eof := "\r\n"

theorem parse_print_normalDocument : normalDocument.Normal ∧ ∀ ids, ∃ d' ids',
    (Document.parse normalDocument.path normalDocument.print).run.run ids = (.ok d', ids') ∧
      d'.anonymous = normalDocument.anonymous := by
  have h : normalDocument.Normal := by decide +kernel
  exact ⟨h, parse_print_of_normal h⟩

end Emend.Markup
