import Emend.Parsing
import Emend.Proofs.Markup.Accepted

/-! # Reading loses nothing

Whatever a reader takes from the front of a text is what the node it returns prints. Each statement says it
for the text that was read before, the text at hand and the text that remains; a document leaves nothing.
-/

namespace Emend.Markup

open Text (Step)

theorem blanksOf_append_afterBlanks (s : List Char) : blanksOf s ++ afterBlanks s = s :=
  List.takeWhile_append_dropWhile

theorem nameOf_append_afterName (s : List Char) : nameOf s ++ afterName s = s :=
  List.takeWhile_append_dropWhile

theorem text_readAttribute {leading : String} {s : List Char} {a : Step Attribute s}
    (h : readAttribute leading s = .ok a) :
    leading.toList ++ s = a.value.print.toList ++ a.rest := by
  obtain ⟨-, s₁, s₂, quote, rawValue, h₁, h₂, hv, -, ha⟩ := of_readAttribute_eq_ok h
  have e := nameOf_append_afterName s
  rw [← blanksOf_append_afterBlanks (afterName s), h₁, ← blanksOf_append_afterBlanks s₁, h₂,
    Text.eq_of_breakOn? hv] at e
  simpa [ha, Attribute.toList_print] using e.symm

theorem printAttributes_reverse_cons (a : Attribute) (read : List Attribute) :
    (printAttributes (a :: read).reverse).toList = (printAttributes read.reverse).toList ++ a.print.toList := by
  simp [toList_printAttributes]

theorem text_readStartTagEnd {name : String} {start : List Char} {read : List Attribute} {s : List Char}
    {found : Step StartTagEnd s} (h : readStartTagEnd name start read s = .ok found) :
    (printAttributes read.reverse).toList ++ s =
      (printAttributes found.value.attributes).toList ++ (found.value.beforeClose.toList ++
        ((if found.value.selfClosing then ['/', '>'] else ['>']) ++ found.rest)) := by
  fun_induction readStartTagEnd name start read s with
  | case1 read s leading rest | case2 read s leading rest =>
    rename_i h₁
    cases h
    simp [leading, ← h₁, blanksOf_append_afterBlanks]
  | case3 | case4 | case5 => cases h
  | case6 read s leading _ _ _ _ a =>
    rename_i ha _ ih
    obtain ⟨found', hf, rfl⟩ := map_eq_ok.1 h
    rw [Step.widen, ← ih hf, printAttributes_reverse_cons, List.append_assoc, ← text_readAttribute ha,
      String.toList_ofList, blanksOf_append_afterBlanks]

theorem text_readDeclarationEnd {start : List Char} {read : List Attribute} {s : List Char}
    {found : Step (List Attribute × String) s} (h : readDeclarationEnd start read s = .ok found) :
    (printAttributes read.reverse).toList ++ s =
      (printAttributes found.value.1).toList ++ (found.value.2.toList ++ ('?' :: '>' :: found.rest)) := by
  fun_induction readDeclarationEnd start read s with
  | case1 read s leading rest =>
    rename_i h₁
    cases h
    simp [leading, ← h₁, blanksOf_append_afterBlanks]
  | case2 | case3 => cases h
  | case4 read s leading _ _ a =>
    rename_i ha _ ih
    obtain ⟨found', hf, rfl⟩ := map_eq_ok.1 h
    rw [Step.widen, ← ih hf, printAttributes_reverse_cons, List.append_assoc, ← text_readAttribute ha,
      String.toList_ofList, blanksOf_append_afterBlanks]

theorem text_readComment {leading : String} {start s : List Char} {x : Step Comment s}
    (h : readComment leading start s = .ok x) :
    leading.toList ++ (['<', '!', '-', '-'] ++ s) = x.value.print.toList ++ x.rest := by
  obtain ⟨text, ht, hx⟩ := of_readComment_eq_ok h
  simpa [hx, Comment.toList_print] using Text.eq_of_breakOn? ht

theorem text_readCdata {leading : String} {start s : List Char} {x : Step CharData s}
    (h : readCdata leading start s = .ok x) :
    leading.toList ++ ("<![CDATA[".toList ++ s) = x.value.print.toList ++ x.rest := by
  obtain ⟨text, ht, hx⟩ := of_readCdata_eq_ok h
  simpa [hx, CharData.toList_print_cdata] using Text.eq_of_breakOn? ht

theorem text_readInstruction {leading : String} {start s : List Char} {x : Step Instruction s}
    (h : readInstruction leading start s = .ok x) :
    leading.toList ++ (['<', '?'] ++ s) = x.value.print.toList ++ x.rest := by
  obtain ⟨-, content, hc, hx⟩ := of_readInstruction_eq_ok h
  have e := nameOf_append_afterName s
  rw [Text.eq_of_breakOn? hc] at e
  simpa [hx, Instruction.toList_print] using e.symm

theorem text_readDocType {leading : String} {start s : List Char} {x : Step DocType s}
    (h : readDocType leading start s = .ok x) :
    leading.toList ++ ("<!DOCTYPE".toList ++ s) = x.value.print.toList ++ x.rest := by
  obtain ⟨body, hb, hx⟩ := of_readDocType_eq_ok h
  simpa [hx, DocType.toList_print] using eq_of_breakDocType hb

theorem text_readClosing {leading expected : String} {start s : List Char} {x : Step Closing s}
    (h : readClosing leading expected start s = .ok x) :
    leading.toList ++ (['<', '/'] ++ s) = x.value.print.toList ++ x.rest := by
  obtain ⟨he, -, hx⟩ := of_readClosing_eq_ok h
  have e := nameOf_append_afterName s
  rw [← blanksOf_append_afterBlanks (afterName s), he] at e
  simpa [hx, Closing.toList_print] using e.symm

def Started.text : Started → List Char
  | whole tag => tag.print.toList
  | opened tag => tag.opening

theorem Started.text_turn (x : Started) : x.turn.text = x.text := by
  cases x <;> rfl

theorem text_readStartTag {leading : String} {start s : List Char} {x : Step Started s}
    (h : readStartTag leading start s = .ok x) :
    leading.toList ++ (['<'] ++ s) = x.value.text ++ x.rest := by
  obtain ⟨-, found, hf, hx, hr⟩ := of_readStartTag_eq_ok h
  have ea : afterName s = _ := text_readStartTagEnd hf
  have e := nameOf_append_afterName s
  rw [ea] at e
  rw [hx, hr, startedTag]
  cases hc : found.value.selfClosing with
  | true => simpa [hc, Started.text, Tag.toList_print_selfClosing, startText] using e.symm
  | false => simpa [hc, Started.text, OpenTag.opening, Content.printAll, startText] using e.symm

theorem TurnRead.text {leading : String} {current : OpenTag} {depth : Nat} {s rest : List Char} {turn : Turn}
    (h : TurnRead leading current depth s turn rest) : leading.toList ++ s = turn.text ++ rest := by
  cases h with
  | close read => exact text_readClosing read
  | comment read => exact text_readComment read
  | cdata read => exact text_readCdata read
  | instruction read => exact text_readInstruction read
  | start read =>
    rw [Started.text_turn]
    exact text_readStartTag read

theorem text_readTurn {leading : String} {current : OpenTag} {depth : Nat} {s : List Char} {x : Step Turn s}
    (h : readTurn leading current depth s = .ok x) : leading.toList ++ s = x.value.text ++ x.rest :=
  (turnRead_of_readTurn h).text

theorem text_takeText (o : OpenTag) (s : List Char) :
    (o.takeText s).1.opening ++ (o.takeText s).2.toList = o.opening ++ s := by
  unfold OpenTag.takeText
  split
  · simp
  · simp [OpenTag.opening_push, CharData.toList_print_raw, Content.print]

/-- The text in front of a turn and the turn itself. -/
theorem text_turn {current : OpenTag} {depth : Nat} {s : List Char} {x : Step Turn (s.dropWhile (· ≠ '<'))}
    (h : readTurn (current.takeText (s.takeWhile (· ≠ '<'))).2 current depth _ = .ok x) :
    current.opening ++ s =
      (current.takeText (s.takeWhile (· ≠ '<'))).1.opening ++ (x.value.text ++ x.rest) := by
  rw [← text_readTurn h, ← List.append_assoc, text_takeText, List.append_assoc, List.takeWhile_append_dropWhile]

def openText (outer : List OpenTag) : List Char := outer.reverse.flatMap OpenTag.opening

theorem openText_cons (o : OpenTag) (outer : List OpenTag) : openText (o :: outer) = openText outer ++ o.opening := by
  simp [openText]

/-- The open elements and the text that remains always write the source. -/
theorem text_readContent {current : OpenTag} {outer : List OpenTag} {s : List Char} {tag : Tag}
    {rest : List Char} (h : readContent current outer s = .ok (tag, rest)) :
    openText outer ++ (current.opening ++ s) = tag.print.toList ++ rest := by
  fun_induction readContent current outer s with
  | case1 | case2 => cases h
  | case3 current s s₁ _ _ taken turn _ closing hc =>
    rename_i ht
    cases h
    rw [text_turn ht, hc, Turn.text, OpenTag.toList_print_close]
    simp [openText, taken]
  | case4 current s s₁ _ _ taken turn _ closing parent outer hc =>
    rename_i ht ih
    rw [← ih h, text_turn ht, hc, Turn.text, openText_cons, OpenTag.opening_push, Content.print,
      OpenTag.toList_print_close]
    simp [taken]
  | case5 current s s₁ _ _ taken turn _ item outer hc =>
    rename_i ht ih
    rw [← ih h, text_turn ht, hc, Turn.text, OpenTag.opening_push]
    simp [taken]
  | case6 current s s₁ _ _ taken turn _ inner outer hc =>
    rename_i ht ih
    rw [← ih h, text_turn ht, hc, Turn.text, openText_cons]
    simp [taken]

theorem text_readRoot {leading : String} {s : List Char} {tag : Tag} {rest : List Char}
    (h : readRoot leading ('<' :: s) = .ok (tag, rest)) : leading.toList ++ '<' :: s = tag.print.toList ++ rest := by
  obtain ⟨started, hs, ⟨hw, rfl⟩ | ⟨o, ho, hc⟩⟩ := startTag_of_readRoot h
  · rw [← Started.text, ← hw]
    exact text_readStartTag hs
  · refine (text_readStartTag hs).trans ?_
    rw [ho, Started.text, ← text_readContent hc]
    simp [openText]

theorem MiscRead.text {leading : String} {s rest : List Char} {m : Misc} (h : MiscRead leading s m rest) :
    leading.toList ++ s = m.print.toList ++ rest := by
  cases h with
  | comment read => exact text_readComment read
  | instruction read => exact text_readInstruction read
  | docType read => exact text_readDocType read

theorem text_readMisc {leading : String} {s : List Char} {x : Step Misc s}
    (h : readMisc leading s = .ok (some x)) : leading.toList ++ s = x.value.print.toList ++ x.rest :=
  (miscRead_of_readMisc h).1.text

theorem text_readPrologItem {leading : String} {s : List Char} {x : Step Misc s}
    (h : readPrologItem leading s = .ok (some x)) : leading.toList ++ s = x.value.print.toList ++ x.rest :=
  (miscRead_of_readPrologItem h).text

theorem printMisc_reverse_cons (m : Misc) (read : List Misc) :
    (printMisc (m :: read).reverse).toList = (printMisc read.reverse).toList ++ m.print.toList := by
  simp [toList_printMisc]

theorem text_readPrologItems {read : List Misc} {s : List Char} {misc : List Misc} {before : String}
    {rest : List Char} (h : readPrologItems read s = .ok (misc, before, rest)) :
    (printMisc read.reverse).toList ++ s = (printMisc misc).toList ++ (before.toList ++ rest) := by
  fun_induction readPrologItems read s with
  | case1 => cases h
  | case2 read s leading =>
    obtain ⟨rfl, rfl, rfl⟩ : read.reverse = misc ∧ leading = before ∧ afterBlanks s = rest := by simpa using h
    rw [String.toList_ofList, blanksOf_append_afterBlanks]
  | case3 read s leading item hi _ ih =>
    rw [← ih h, printMisc_reverse_cons, List.append_assoc, ← text_readPrologItem hi, String.toList_ofList,
      blanksOf_append_afterBlanks]

theorem text_readEpilog {read : List Misc} {s : List Char} {misc : List Misc} {eof : String}
    (h : readEpilog read s = .ok (misc, eof)) :
    (printMisc read.reverse).toList ++ s = (printMisc misc).toList ++ eof.toList := by
  fun_induction readEpilog read s with
  | case1 read s leading hb =>
    obtain ⟨rfl, rfl⟩ : read.reverse = misc ∧ leading = eof := by simpa using h
    rw [String.toList_ofList, ← List.append_nil (blanksOf s), ← hb, blanksOf_append_afterBlanks]
  | case2 | case3 => cases h
  | case4 read s leading _ item hi _ ih =>
    rw [← ih h, printMisc_reverse_cons, List.append_assoc, ← text_readMisc hi, String.toList_ofList,
      blanksOf_append_afterBlanks]

theorem eq_of_afterDeclarationStart? {s r : List Char} (h : afterDeclarationStart? s = some r) :
    s = "<?xml".toList ++ r :=
  Text.after?_eq_some_iff.1 (Option.filter_eq_some_iff.1 h).1

theorem text_readDeclaration {s rest : List Char} {declaration : Option Declaration}
    (h : readDeclaration? s = .ok (declaration, rest)) :
    s = declaration.elim [] (·.print.toList) ++ rest := by
  unfold readDeclaration? at h
  dsimp only at h
  split at h
  · cases h
    rfl
  next r hr =>
  obtain ⟨found, hf, he⟩ := bind_eq_ok.1 h
  cases he
  have ea : r = _ := text_readDeclarationEnd hf
  have e := blanksOf_append_afterBlanks s
  rw [eq_of_afterDeclarationStart? hr, ea] at e
  simpa [Declaration.toList_print] using e.symm

theorem text_bom {s : List Char} {bom : Bool} (h : bom = (s.head? == some bomChar)) :
    (if bom then [bomChar] else []) ++ (if bom then s.drop 1 else s) = s := by
  subst h
  cases s with
  | nil => rfl
  | cons c s => by_cases h : c = bomChar <;> simp [h]

theorem exists_cons_of_startsWith {c : Char} {s : List Char} (h : Text.startsWith s [c] = true) :
    ∃ t, s = c :: t := by
  obtain ⟨t, ht⟩ := Option.isSome_iff_exists.1 h
  exact ⟨t, Text.after?_eq_some_iff.1 ht⟩

theorem exists_root_bracket {s : List Char} (h : ¬(!Text.startsWith s ['<'] || Text.startsWith s ['<', '/']) = true) :
    ∃ t, s = '<' :: t := by
  apply exists_cons_of_startsWith
  cases hc : Text.startsWith s ['<'] with
  | true => rfl
  | false => simp [hc] at h

/-- The parts that a document is read from, one behind the other. -/
theorem of_readDocument_eq_ok {path : FilePath} {kind : SourceKind} {s : List Char} {d : Document}
    (h : readDocument path kind s = .ok d) :
    d.bom = (s.head? == some bomChar) ∧ ∃ s₁ leading s₂ s₃,
      readDeclaration? (if d.bom then s.drop 1 else s) = .ok (d.prolog.declaration, s₁) ∧
      readPrologItems [] s₁ = .ok (d.prolog.misc, leading, '<' :: s₂) ∧
      readRoot leading ('<' :: s₂) = .ok (d.root, s₃) ∧
      readEpilog [] s₃ = .ok (d.epilog, d.eof) := by
  unfold readDocument at h
  obtain ⟨⟨declaration, s₁⟩, hd, h⟩ := bind_eq_ok.1 h
  obtain ⟨⟨misc, leading, s₂⟩, hm, h⟩ := bind_eq_ok.1 h
  dsimp only at h
  split at h
  · cases h
  split at h
  · cases h
  next hb =>
  obtain ⟨⟨root, s₃⟩, hr, h⟩ := bind_eq_ok.1 h
  obtain ⟨⟨epilog, eof⟩, he, h'⟩ := bind_eq_ok.1 h
  obtain ⟨s₂, rfl⟩ := exists_root_bracket hb
  cases h'
  exact ⟨rfl, s₁, leading, s₂, s₃, hd, hm, hr, he⟩

theorem toList_print_of_readDocument {path : FilePath} {kind : SourceKind} {s : List Char} {d : Document}
    (h : readDocument path kind s = .ok d) : d.print.toList = s := by
  obtain ⟨hb, s₁, leading, s₂, s₃, hd, hm, hr, he⟩ := of_readDocument_eq_ok h
  have em : s₁ = _ := text_readPrologItems hm
  have ee : s₃ = _ := text_readEpilog he
  have e := text_bom hb
  rw [text_readDeclaration hd, em, text_readRoot hr, ee] at e
  rw [← e, Document.print]
  cases d.bom <;> simp [Prolog.toList_print]

theorem run_parse_of_error {path : FilePath} {source : String} {fault : Fault}
    (h : readDocument path (kindAt path) source.toList = .error fault) (ids : Supply) :
    (Document.parse path source).run.run ids = (.error (fault.toError path source), ids) := by
  unfold Document.parse
  rw [h]
  rfl

/-- Parsing succeeds exactly if reading does, and then only ids are added. -/
theorem run_parse_eq_ok_iff {path : FilePath} {source : String} {ids ids' : Supply} {d : Document} :
    (Document.parse path source).run.run ids = (.ok d, ids') ↔
      ∃ read, readDocument path (kindAt path) source.toList = .ok read ∧ read.number.run ids = (d, ids') := by
  unfold Document.parse
  cases readDocument path (kindAt path) source.toList with
  | error e =>
    constructor
    · intro h
      cases h
    · rintro ⟨_, h, _⟩
      cases h
  | ok read =>
    have hl : (ExceptT.lift read.number : Reading Document).run.run ids =
        (.ok (read.number.run ids).1, (read.number.run ids).2) := rfl
    simp only [hl]
    constructor
    · intro h
      obtain ⟨hd, hi⟩ := Prod.mk.inj h
      exact ⟨read, rfl, Prod.ext (Except.ok.inj hd) hi⟩
    · rintro ⟨_, h, hd⟩
      cases h
      rw [hd]

/-- Printing the document that a text was read as gives back that text. -/
theorem print_of_parse {path : FilePath} {source : String} {ids ids' : Supply} {d : Document}
    (h : (Document.parse path source).run.run ids = (.ok d, ids')) : d.print = source := by
  obtain ⟨read, hr, hd⟩ := run_parse_eq_ok_iff.1 h
  have e := read.print_number ids
  rw [hd] at e
  rw [e]
  exact String.toList_injective (toList_print_of_readDocument hr)

def mixedText : String :=
  "\ufeff<?xml v='1' ?>\r\n<!DOCTYPE a [<!ENTITY b \"]>\">]>\n<a  x = '\"'\ty=\"&b;\" >\r\n " ++
    "&b;<![CDATA[<]]> <e />\n<?p?></a >\n<!--z-->\r\n"

theorem print_of_parse_mixedText :
    ∃ d ids, (Document.parse ⟨"a.xml"⟩ mixedText).run.run {} = (.ok d, ids) ∧ d.print = mixedText := by
  have h : ((Document.parse ⟨"a.xml"⟩ mixedText).run.run {}).1.toBool = true := by decide +kernel
  obtain ⟨d, hd⟩ := exists_eq_ok_of_toBool h
  exact ⟨d, _, hd, print_of_parse hd⟩

end Emend.Markup
