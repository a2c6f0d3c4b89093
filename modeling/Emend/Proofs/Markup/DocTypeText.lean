import Emend.Proofs.Markup.Parsed

/-! # Texts of document types

`Heading` is the grammar of document type declarations: a name, an external id, an internal subset. The search for the
closing bracket knows quotes and square brackets only, and finds them in comments and instructions as well. A
declaration in which these come in pairs is read as it stands, in front of any document.
-/

namespace Emend.Markup

abbrev Blanks := { s : String // Text.allBlank s = true }

structure Literal where
  quote : Quote
  text : String
  closed : quote.char ∉ text.toList

def Literal.print (l : Literal) : String := l.quote.char.toString ++ l.text ++ l.quote.char.toString

/-- What the search for the closing bracket looks at, inside the internal subset. -/
def scanMarks : List Char := ['"', '\'', '[', ']']

def Free (marks s : List Char) : Prop := ∀ c ∈ s, c ∉ marks

instance (marks s : List Char) : Decidable (Free marks s) := List.decidableBAll (· ∉ marks) s

/-- The name of the document type, or of a parameter entity. -/
structure DeclaredName where
  text : String
  isName : IsName text
  plain : Free scanMarks text.toList

inductive ExternalId where
  | bySystem (before between : Blanks) (systemId : Literal)
  | byPublic (before between : Blanks) (publicId : Literal) (further : Blanks) (systemId : Literal)

def ExternalId.print : ExternalId → String
  | bySystem before between systemId => before ++ "SYSTEM" ++ between ++ systemId.print
  | byPublic before between publicId further systemId =>
    before ++ "PUBLIC" ++ between ++ publicId.print ++ further ++ systemId.print

inductive DeclarationPart where
  | words (text : String) (plain : Free ('>' :: scanMarks) text.toList)
  | literal (l : Literal)

def DeclarationPart.print : DeclarationPart → String
  | words text _ => text
  | literal l => l.print

inductive SubsetItem where
  | blanks (b : Blanks)
  | declaration (parts : List DeclarationPart)
  | reference (name : DeclaredName)
  | comment (text : String) (closed : Text.contains ['-', '-', '>'] text.toList = false)
  | instruction (text : String) (closed : Text.contains ['?', '>'] text.toList = false)

def SubsetItem.print : SubsetItem → String
  | blanks b => b
  | declaration parts => "<!" ++ String.join (parts.map DeclarationPart.print) ++ ">"
  | reference name => "%" ++ name.text ++ ";"
  | comment text _ => "<!--" ++ text ++ "-->"
  | instruction text _ => "<?" ++ text ++ "?>"

structure InternalSubset where
  before : Blanks
  items : List SubsetItem

def printItems (items : List SubsetItem) : String := String.join (items.map SubsetItem.print)

def InternalSubset.print (s : InternalSubset) : String := s.before ++ "[" ++ printItems s.items ++ "]"

/-- A document type declaration, without the brackets around it. -/
structure Heading where
  before : Blanks
  name : DeclaredName
  externalId : Option ExternalId
  subset : Option InternalSubset
  behind : Blanks

def Heading.body (h : Heading) : String :=
  h.before ++ h.name.text ++ (h.externalId.map ExternalId.print).getD "" ++
    (h.subset.map InternalSubset.print).getD "" ++ h.behind

/-- Quotes and square brackets come in pairs. -/
inductive Balanced : List Char → Prop
  | nil : Balanced []
  | plain {c : Char} : c ∉ scanMarks → Balanced [c]
  | quoted {q : Quote} {v : List Char} : q.char ∉ v → Balanced (q.char :: (v ++ [q.char]))
  | bracketed {s : List Char} : Balanced s → Balanced ('[' :: (s ++ [']']))
  | append {s t : List Char} : Balanced s → Balanced t → Balanced (s ++ t)

/-- Inside `depth` square brackets, the search for the closing bracket passes over the text. -/
def Passes (depth : Nat) (w : List Char) : Prop :=
  ∀ s, breakDocType none depth (w ++ s) = (breakDocType none depth s).map fun found => (w ++ found.1, found.2)

theorem passes_nil (depth : Nat) : Passes depth [] := by
  intro s
  cases h : breakDocType none depth s <;> simp [h]

theorem Passes.append {depth : Nat} {w w' : List Char} (h : Passes depth w) (h' : Passes depth w') :
    Passes depth (w ++ w') := by
  intro s
  rw [List.append_assoc, h, h', Option.map_map]
  simp [Function.comp_def]

theorem passes_plain {depth : Nat} {c : Char} (hc : c ∉ scanMarks) (hb : c = '>' → depth ≠ 0) : Passes depth [c] := by
  intro s
  have hs : ¬(c = '>' ∧ depth = 0) := fun h => hb h.1 h.2
  simp only [scanMarks, List.mem_cons, List.not_mem_nil, or_false, not_or] at hc
  obtain ⟨double, single, opening, closing⟩ := hc
  rw [List.singleton_append, breakDocType, if_neg hs]
  simp [double, single, opening, closing]

theorem breakDocType_quoted {q : Char} {depth : Nat} {v : List Char} (hv : q ∉ v) (s : List Char) :
    breakDocType (some q) depth (v ++ q :: s) =
      (breakDocType none depth s).map fun found => (v ++ q :: found.1, found.2) := by
  induction v with
  | nil => simp [breakDocType]
  | cons c v ih =>
    rw [List.mem_cons, not_or] at hv
    obtain ⟨hc, hv⟩ := hv
    rw [List.cons_append, breakDocType, if_neg (Ne.symm hc), ih hv, Option.map_map]
    rfl

theorem passes_quoted {depth : Nat} {q : Quote} {v : List Char} (hv : q.char ∉ v) :
    Passes depth (q.char :: (v ++ [q.char])) := by
  intro s
  have hq : q.char = '"' ∨ q.char = '\'' := by cases q <;> simp [Quote.char]
  have hb : ¬(q.char = '>' ∧ depth = 0) := by cases q <;> simp [Quote.char]
  have ho : q.char ≠ '[' := by cases q <;> decide
  have hc : q.char ≠ ']' := by cases q <;> decide
  rw [List.cons_append, breakDocType, if_neg hb]
  dsimp only
  rw [if_pos hq, if_neg ho, if_neg hc, List.append_assoc, List.singleton_append, breakDocType_quoted hv, Option.map_map]
  simp [Function.comp_def]

theorem passes_bracketed {depth : Nat} {w : List Char} (h : Passes (depth + 1) w) :
    Passes depth ('[' :: (w ++ [']'])) := by
  intro s
  have opening : breakDocType none depth ('[' :: (w ++ ']' :: s)) =
      (breakDocType none (depth + 1) (w ++ ']' :: s)).map fun found => ('[' :: found.1, found.2) := by
    rw [breakDocType, if_neg (by simp)]
    rfl
  have closing : breakDocType none (depth + 1) (']' :: s) =
      (breakDocType none depth s).map fun found => (']' :: found.1, found.2) := by
    rw [breakDocType, if_neg (by simp)]
    rfl
  rw [List.cons_append, List.append_assoc, List.singleton_append, opening, h, closing, Option.map_map, Option.map_map]
  simp [Function.comp_def]

theorem passes_of_free {depth : Nat} {s : List Char} (h : Free ('>' :: scanMarks) s) : Passes depth s := by
  induction s with
  | nil => exact passes_nil depth
  | cons c s ih =>
    obtain ⟨hb, hc⟩ := not_or.1 (mt List.mem_cons.2 (h c List.mem_cons_self))
    have first : Passes depth [c] := passes_plain hc fun e => absurd e hb
    exact first.append (ih fun d hd => h d (List.mem_cons_of_mem c hd))

/-- Inside square brackets no text that is balanced ends the search. -/
theorem Balanced.passes {s : List Char} (h : Balanced s) (depth : Nat) : Passes (depth + 1) s := by
  induction h generalizing depth with
  | nil => exact passes_nil _
  | plain hc => exact passes_plain hc fun _ => Nat.succ_ne_zero depth
  | quoted hv => exact passes_quoted hv
  | bracketed _ ih => exact passes_bracketed (ih (depth + 1))
  | append _ _ ih ih' => exact (ih depth).append (ih' depth)

theorem balanced_of_free {s : List Char} (h : Free scanMarks s) : Balanced s := by
  induction s with
  | nil => exact .nil
  | cons c s ih => exact .append (.plain (h c List.mem_cons_self)) (ih fun d hd => h d (List.mem_cons_of_mem c hd))

theorem Literal.toList_print (l : Literal) : l.print.toList = l.quote.char :: (l.text.toList ++ [l.quote.char]) := by
  simp [Literal.print]

theorem DeclarationPart.balanced (p : DeclarationPart) : Balanced p.print.toList := by
  cases p with
  | words text plain =>
    refine balanced_of_free fun c hc hm => ?_
    exact plain c hc (List.mem_cons_of_mem _ hm)
  | literal l =>
    rw [DeclarationPart.print, l.toList_print]
    exact .quoted l.closed

theorem balanced_join {strings : List String} (h : ∀ s ∈ strings, Balanced s.toList) :
    Balanced (String.join strings).toList := by
  rw [String.toList_join]
  induction strings with
  | nil => exact .nil
  | cons s strings ih =>
    rw [List.flatMap_cons]
    exact .append (h s List.mem_cons_self) (ih fun t ht => h t (List.mem_cons_of_mem s ht))

theorem plain_of_isBlank {c : Char} (h : Text.isBlank c = true) : c ∉ '>' :: scanMarks := by
  intro hm
  have none_blank : ('>' :: scanMarks).all (!Text.isBlank ·) = true := by decide
  have hb := List.all_eq_true.1 none_blank c hm
  rw [h] at hb
  cases hb

theorem Blanks.plain (b : Blanks) : Free ('>' :: scanMarks) b.1.toList := fun c hc =>
  plain_of_isBlank (Text.allBlank_iff.1 b.2 c hc)

/-- Quotes and square brackets come in pairs in the internal subset, those in comments and instructions counted. The two
of a pair may stand in different items. -/
def Heading.Paired (h : Heading) : Prop := ∀ s ∈ h.subset, Balanced (printItems s.items).toList

/-- The item is no comment and no instruction, or has quotes and square brackets in pairs. -/
def SubsetItem.Paired : SubsetItem → Prop
  | comment text _ | instruction text _ => Balanced text.toList
  | blanks _ | declaration _ | reference _ => True

theorem SubsetItem.Paired.balanced {i : SubsetItem} (h : i.Paired) : Balanced i.print.toList := by
  cases i with
  | blanks b => exact balanced_of_free fun c hc hm => b.plain c hc (List.mem_cons_of_mem _ hm)
  | declaration parts =>
    have inside : Balanced (String.join (parts.map DeclarationPart.print)).toList := by
      refine balanced_join fun s hs => ?_
      obtain ⟨p, -, rfl⟩ := List.mem_map.1 hs
      exact p.balanced
    rw [SubsetItem.print, String.toList_append, String.toList_append]
    exact .append (.append (balanced_of_free (by decide)) inside) (balanced_of_free (by decide))
  | reference name =>
    rw [SubsetItem.print, String.toList_append, String.toList_append]
    exact .append (.append (balanced_of_free (by decide)) (balanced_of_free name.plain))
      (balanced_of_free (by decide))
  | comment text _ | instruction text _ =>
    rw [SubsetItem.print, String.toList_append, String.toList_append]
    exact .append (.append (balanced_of_free (by decide)) h) (balanced_of_free (by decide))

theorem balanced_printItems {items : List SubsetItem} (h : ∀ i ∈ items, i.Paired) :
    Balanced (printItems items).toList := by
  refine balanced_join fun t ht => ?_
  obtain ⟨i, hi, rfl⟩ := List.mem_map.1 ht
  exact (h i hi).balanced

section

variable {depth : Nat}

theorem Blanks.passes (b : Blanks) : Passes depth b.1.toList := passes_of_free b.plain

theorem DeclaredName.passes (n : DeclaredName) : Passes depth n.text.toList := by
  refine passes_of_free fun c hc => ?_
  rw [List.mem_cons, not_or]
  refine ⟨?_, n.plain c hc⟩
  rintro rfl
  exact absurd (n.isName.2 _ hc) (by decide)

theorem Literal.passes (l : Literal) : Passes depth l.print.toList := by
  rw [l.toList_print]
  exact passes_quoted l.closed

theorem ExternalId.passes (e : ExternalId) : Passes depth e.print.toList := by
  cases e with
  | bySystem before between systemId =>
    have keyword : Passes depth "SYSTEM".toList := passes_of_free (by decide)
    simp only [ExternalId.print, String.toList_append]
    exact ((before.passes.append keyword).append between.passes).append systemId.passes
  | byPublic before between publicId further systemId =>
    have keyword : Passes depth "PUBLIC".toList := passes_of_free (by decide)
    simp only [ExternalId.print, String.toList_append]
    exact ((((before.passes.append keyword).append between.passes).append publicId.passes).append
      further.passes).append systemId.passes

theorem InternalSubset.passes {s : InternalSubset} (h : Balanced (printItems s.items).toList) :
    Passes depth s.print.toList := by
  have text : s.print.toList = s.before.1.toList ++ '[' :: ((printItems s.items).toList ++ [']']) := by
    simp [InternalSubset.print]
  rw [text]
  exact s.before.passes.append (passes_bracketed (h.passes depth))

end

theorem passes_getD {depth : Nat} {part : Option String} (h : ∀ s ∈ part, Passes depth s.toList) :
    Passes depth (part.getD "").toList := by
  cases part with
  | none => exact passes_nil depth
  | some s => exact h s rfl

/-- The search ends at the bracket behind the declaration. -/
theorem Heading.passes {h : Heading} (paired : h.Paired) : Passes 0 h.body.toList := by
  have externalId : Passes 0 ((h.externalId.map ExternalId.print).getD "").toList := by
    refine passes_getD fun s hs => ?_
    obtain ⟨e, -, rfl⟩ := Option.map_eq_some_iff.1 hs
    exact e.passes
  have subset : Passes 0 ((h.subset.map InternalSubset.print).getD "").toList := by
    refine passes_getD fun s hs => ?_
    obtain ⟨i, hi, rfl⟩ := Option.map_eq_some_iff.1 hs
    exact InternalSubset.passes (paired i hi)
  simp only [Heading.body, String.toList_append]
  exact (((h.before.passes.append h.name.passes).append externalId).append subset).append h.behind.passes

theorem Heading.normal {h : Heading} (paired : h.Paired) :
    (⟨.none, "", h.body⟩ : DocType).Normal where
  leading := rfl
  body := by
    have stop : breakDocType none 0 ['>'] = some ([], []) := rfl
    change breakDocType none 0 (h.body.toList ++ ['>']) = _
    rw [Heading.passes paired, stop, Option.map_some, List.append_nil]

def Declaration.inside (d : Declaration) : String := printAttributes d.attributes ++ d.beforeClose

/-- Behind a document type, a declaration is an instruction like any other. -/
def Declaration.asInstruction (d : Declaration) : Instruction := ⟨.none, d.leading, "xml", d.inside⟩

def Document.headed (d : Document) (body : String) : Document :=
  { d with
    bom := false
    prolog := {
      id := .none
      declaration := none
      misc := .docType ⟨.none, "", body⟩ ::
        ((d.prolog.declaration.map fun x => .instruction x.asInstruction).toList ++ d.prolog.misc) } }

theorem Declaration.print_asInstruction (d : Declaration) : d.asInstruction.print = d.print := by
  simp only [Instruction.print, Declaration.asInstruction, Declaration.inside, Declaration.print, String.append_assoc]
  rfl

theorem Declaration.Normal.asInstruction {d : Declaration} (h : d.Normal)
    (inside : Text.contains ['?', '>'] d.inside.toList = false) : d.asInstruction.Normal where
  leading := h.leading
  target := show IsName "xml" by decide
  content := by
    intro c hc
    -- a declaration goes on with a blank or ends, and so does a target
    obtain ⟨x, hx, kind⟩ := h.exists_head []
    have text : d.asInstruction.content.toList = (printAttributes d.attributes).toList ++ d.beforeClose.toList :=
      String.toList_append
    rw [text] at hc
    rw [← List.append_assoc, Option.mem_def, List.mem_head?_append_of_mem_head? hc] at hx
    cases hx
    rcases kind with blank | rfl
    · exact isNameEnd_of_isBlank blank
    · rfl
  terminator := inside

theorem Document.print_headed {d : Document} (bom : d.bom = false) (body : String) :
    (d.headed body).print = "<!DOCTYPE" ++ body ++ ">" ++ d.print := by
  have declaration : (d.prolog.declaration.map fun x => Misc.instruction x.asInstruction).toList.flatMap
      (·.print.toList) = d.prolog.declaration.elim [] (·.print.toList) := by
    cases d.prolog.declaration with
    | none => rfl
    | some x => simp [Misc.print, x.print_asInstruction]
  have front : (d.headed body).body = "<!DOCTYPE".toList ++ (body.toList ++ '>' :: d.body) := by
    have docType : (Misc.docType ⟨.none, "", body⟩).print.toList = "<!DOCTYPE".toList ++ (body.toList ++ ['>']) :=
      DocType.toList_print _
    simp [Document.body, Document.headed, toList_printMisc, declaration, docType]
  apply String.toList_injective
  rw [Document.toList_print, front]
  simp [d.toList_print, bom, Document.headed]

theorem Document.Readable.headed {d : Document} (readable : d.Readable) {h : Heading} (paired : h.Paired)
    (inside : ∀ x ∈ d.prolog.declaration, Text.contains ['?', '>'] x.inside.toList = false) :
    (d.headed h.body).Readable where
  kind := readable.kind
  markers := readable.markers
  declaration := nofun
  misc := by
    intro m hm
    rcases List.mem_cons.1 hm with rfl | hm
    · exact Heading.normal paired
    rcases List.mem_append.1 hm with hm | hm
    · obtain ⟨x, hx, rfl⟩ := Option.map_eq_some_iff.1 (Option.mem_toList.1 hm)
      exact (readable.declaration x hx).asInstruction (inside x hx)
    · exact readable.misc m hm
  first := by
    rintro - m ⟨⟩ ⟨⟩
  elements := readable.elements
  inner := readable.inner
  noComment := readable.noComment
  noDocType := readable.noDocType
  depth := readable.depth
  epilog := readable.epilog
  eof := readable.eof

/-- A document type declaration is read up to its own bracket, in front of any document that is accepted: comments and
instructions in it may hold anything, as long as quotes and square brackets come in pairs. -/
theorem docType_ends_at_own_bracket {path : FilePath} {source : String} {ids ids' : Supply} {d : Document}
    (accepted : (Document.parse path source).run.run ids = (.ok d, ids')) {h : Heading} (paired : h.Paired)
    (bom : d.bom = false) (inside : ∀ x ∈ d.prolog.declaration, Text.contains ['?', '>'] x.inside.toList = false)
    (s : Supply) :
    ∃ d' s', (Document.parse path ("<!DOCTYPE" ++ h.body ++ ">" ++ source)).run.run s = (.ok d', s') ∧
      d'.anonymous = (d.headed h.body).anonymous := by
  obtain ⟨readable, samePath⟩ := readable_of_parse accepted
  have text : (d.headed h.body).print = "<!DOCTYPE" ++ h.body ++ ">" ++ source := by
    rw [Document.print_headed bom, print_of_parse accepted]
  have parsed := parse_print_of_readable (readable.headed paired inside) s
  rw [text] at parsed
  rw [← samePath]
  exact parsed

/-- Quotes and brackets of all kinds, in literals, in a comment and in an instruction. -/
def annotations : List SubsetItem := [
  .declaration [.words "ENTITY b " (by decide), .literal ⟨.double, ">]", by decide⟩],
  .blanks ⟨"\n", by decide⟩,
  .reference ⟨"c", by decide, by decide⟩,
  .comment " > \"]\" " (by decide),
  .instruction "p []" (by decide)]

/-- An apostrophe that has its other one in the next item. -/
def contractions : List SubsetItem := [.comment " it's " (by decide), .instruction "p isn't" (by decide)]

def annotated : Heading where
  before := ⟨" ", by decide⟩
  name := ⟨"a", by decide, by decide⟩
  externalId := some (.byPublic ⟨" ", by decide⟩ ⟨" ", by decide⟩ ⟨.double, "it's", by decide⟩ ⟨" ", by decide⟩
    ⟨.single, "]>", by decide⟩)
  subset := some ⟨⟨"\n", by decide⟩, annotations ++ contractions⟩
  behind := ⟨" ", by decide⟩

theorem paired_of_mem_annotations {i : SubsetItem} (h : i ∈ annotations) : i.Paired := by
  have quoted : Balanced " > \"]\" ".toList :=
    .append (balanced_of_free (s := " > ".toList) (by decide))
      (.append (.quoted (q := .double) (v := [']']) (by decide)) (.plain (c := ' ') (by decide)))
  have bracketed : Balanced "p []".toList :=
    .append (balanced_of_free (s := "p ".toList) (by decide)) (.bracketed .nil)
  simp only [annotations, List.mem_cons, List.not_mem_nil, or_false] at h
  rcases h with rfl | rfl | rfl | rfl | rfl
  · trivial
  · trivial
  · trivial
  · exact quoted
  · exact bracketed

theorem annotated_paired : annotated.Paired := by
  rintro s ⟨⟩
  have across : Balanced (printItems contractions).toList :=
    .append (balanced_of_free (s := "<!-- it".toList) (by decide))
      (.append (.quoted (q := .single) (v := "s --><?p isn".toList) (by decide))
        (balanced_of_free (s := "t?>".toList) (by decide)))
  have text : (printItems (annotations ++ contractions)).toList =
      (printItems annotations).toList ++ (printItems contractions).toList := by
    simp [printItems]
  exact text ▸ .append (balanced_printItems fun _ => paired_of_mem_annotations) across

theorem docType_ends_at_own_bracket_annotated :
    ∃ d s,
      (Document.parse ⟨"a.xml"⟩ ("<!DOCTYPE" ++ annotated.body ++ ">" ++ "<?xml v='1'?>\n<a/>")).run.run {} =
        (.ok d, s) ∧
      d.prolog.misc.head?.map Misc.anonymous = some (.docType ⟨.none, "", annotated.body⟩) := by
  have plain : ((Document.parse ⟨"a.xml"⟩ "<?xml v='1'?>\n<a/>").run.run {}).1.toOption.map (fun d =>
      (d.bom, d.prolog.declaration.map Declaration.inside)) = some (false, some " v='1'") := by decide +kernel
  have read : ((Document.parse ⟨"a.xml"⟩ "<?xml v='1'?>\n<a/>").run.run {}).1.toBool = true := by decide +kernel
  obtain ⟨d, accepted⟩ := exists_eq_ok_of_toBool read
  rw [accepted] at plain
  obtain ⟨bom, inside⟩ := Prod.mk.inj (Option.some.inj plain)
  obtain ⟨d', s, parsed, same⟩ := docType_ends_at_own_bracket accepted annotated_paired bom (fun x hx => by
    rw [Option.mem_def.1 hx] at inside
    rw [Option.some.inj inside]
    decide) {}
  refine ⟨d', s, parsed, ?_⟩
  have misc := congrArg (·.prolog.misc.head?) same
  rw [← List.head?_map]
  exact misc

def headingOf (items : List SubsetItem) : Heading where
  before := ⟨" ", by decide⟩
  name := ⟨"a", by decide, by decide⟩
  externalId := none
  subset := some ⟨⟨" ", by decide⟩, items⟩
  behind := ⟨"", by decide⟩

/-- An apostrophe in a comment keeps the search from ending, and a square bracket makes it end inside the comment. -/
theorem docType_not_ended :
    ((Document.parse ⟨"a.xml"⟩ "<a/>").run.run {}).1.toBool = true ∧
    ((Document.parse ⟨"a.xml"⟩ ("<!DOCTYPE" ++ (headingOf [.comment " it's " (by decide)]).body ++ ">" ++
      "<a/>")).run.run {}).1.toBool = false ∧
    ((Document.parse ⟨"a.xml"⟩ ("<!DOCTYPE" ++ (headingOf [.comment " ]> " (by decide)]).body ++ ">" ++ "<a/>")).run.run
      {}).1.toBool = false := by
  decide +kernel

/-- What may stand at the beginning of a text only does not stand behind a document type: a byte order mark, and a
declaration that ends earlier as an instruction. -/
theorem not_behind_docType : ∀ source ∈ ["\ufeff<a/>", "<?xml v='?>'?><a/>"],
    ((Document.parse ⟨"a.xml"⟩ source).run.run {}).1.toBool = true ∧
    ((Document.parse ⟨"a.xml"⟩ ("<!DOCTYPE" ++ (headingOf []).body ++ ">" ++ source)).run.run {}).1.toBool = false := by
  decide +kernel

end Emend.Markup
