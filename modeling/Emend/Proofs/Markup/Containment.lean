import Emend.Proofs.Markup.Lawful
import Emend.Proofs.Markup.ReparseDocument

/-! # Payloads stay inside their nodes

A document may be accepted without being what its text is read as: runs of text may stand side by side, and blanks
may stand in a run or in front of what follows it. Moving all of that to where a reader puts it keeps the text and the
elements, and the document comes to normal form if no attribute value holds a bracket. So its text is read again, and as
the same elements (`parse_print_of_check`).
-/

namespace Emend.Markup

/-- Names and blanks are such as a reader finds them; the value may be anything. -/
@[mk_iff] structure Attribute.Lexical (a : Attribute) : Prop where
  leading : Text.allBlank a.leading = true
  apart : a.leading ≠ ""
  key : IsName a.key
  beforeEquals : Text.allBlank a.beforeEquals = true
  afterEquals : Text.allBlank a.afterEquals = true

instance (a : Attribute) : Decidable a.Lexical := decidable_of_iff _ (Attribute.lexical_iff a).symm

@[mk_iff] structure Closing.Lexical (c : Closing) : Prop where
  leading : Text.allBlank c.leading = true
  beforeClose : Text.allBlank c.beforeClose = true

instance (c : Closing) : Decidable c.Lexical := decidable_of_iff _ (Closing.lexical_iff c).symm

/-- The content is empty, or a delimiter parts it from the target. -/
@[mk_iff] structure Instruction.Lexical (i : Instruction) : Prop where
  leading : Text.allBlank i.leading = true
  target : IsName i.target
  content : EndsName i.content

instance (i : Instruction) : Decidable i.Lexical := decidable_of_iff _ (Instruction.lexical_iff i).symm

/-- The fields of an item that is not an element. -/
def Content.LexicalLeaf : Content → Prop
  | .tag _ => True
  | .charData d => Text.allBlank d.leading = true
  | .comment c => Text.allBlank c.leading = true
  | .instruction i => i.Lexical

instance : (c : Content) → Decidable c.LexicalLeaf
  | .tag _ => inferInstanceAs (Decidable True)
  | .charData d => inferInstanceAs (Decidable (Text.allBlank d.leading = true))
  | .comment c => inferInstanceAs (Decidable (Text.allBlank c.leading = true))
  | .instruction i => inferInstanceAs (Decidable i.Lexical)

/-- The fields of an element; the elements inside it are not looked at. -/
@[mk_iff] structure Tag.Lexical (t : Tag) : Prop where
  leading : Text.allBlank t.leading = true
  name : IsName t.name
  noDeclaration : t.name.toList.head? ≠ some '!'
  attributes : ∀ a ∈ t.attributes, a.Lexical
  beforeClose : Text.allBlank t.beforeClose = true
  items : ∀ items ∈ t.content, ∀ c ∈ items, c.LexicalLeaf
  closing : ∀ c ∈ t.closing, c.Lexical

instance (t : Tag) : Decidable t.Lexical := decidable_of_iff _ (Tag.lexical_iff t).symm

@[mk_iff] structure Declaration.Lexical (d : Declaration) : Prop where
  leading : Text.allBlank d.leading = true
  attributes : ∀ a ∈ d.attributes, a.Lexical
  beforeClose : Text.allBlank d.beforeClose = true

instance (d : Declaration) : Decidable d.Lexical := decidable_of_iff _ (Declaration.lexical_iff d).symm

def Misc.Lexical : Misc → Prop
  | comment c => Text.allBlank c.leading = true
  | instruction i => i.Lexical
  | docType d => Text.allBlank d.leading = true

instance : (m : Misc) → Decidable m.Lexical
  | .comment c => inferInstanceAs (Decidable (Text.allBlank c.leading = true))
  | .instruction i => inferInstanceAs (Decidable i.Lexical)
  | .docType d => inferInstanceAs (Decidable (Text.allBlank d.leading = true))

@[mk_iff] structure Document.Lexical (d : Document) : Prop where
  declaration : ∀ x ∈ d.prolog.declaration, x.Lexical
  misc : ∀ m ∈ d.prolog.misc, m.Lexical
  first : d.prolog.declaration = none → ∀ m ∈ d.prolog.misc.head?, ¬m.LooksLikeDeclaration
  elements : ∀ t ∈ d.root.elements, t.Lexical
  epilog : ∀ m ∈ d.epilog, m.Lexical

instance (d : Document) : Decidable d.Lexical := decidable_of_iff _ (Document.lexical_iff d).symm

def Document.NoDocType (d : Document) : Prop := ∀ m ∈ d.prolog.misc ++ d.epilog, m.isDocType = false

instance (d : Document) : Decidable d.NoDocType :=
  inferInstanceAs (Decidable (∀ m ∈ d.prolog.misc ++ d.epilog, m.isDocType = false))

/-- No attribute value holds a bracket. -/
def NoBracket (as : List Attribute) : Prop := ∀ a ∈ as, '<' ∉ a.rawValue.toList

instance (as : List Attribute) : Decidable (NoBracket as) :=
  inferInstanceAs (Decidable (∀ a ∈ as, '<' ∉ a.rawValue.toList))

@[mk_iff] structure Document.NoBracketInValues (d : Document) : Prop where
  declaration : ∀ x ∈ d.prolog.declaration, NoBracket x.attributes
  elements : ∀ t ∈ d.root.elements, NoBracket t.attributes

instance (d : Document) : Decidable d.NoBracketInValues :=
  decidable_of_iff _ (Document.noBracketInValues_iff d).symm

/-- An element as its name, its attributes by key and raw value, and the elements inside it. -/
inductive Outline where
  | element (name : String) (attributes : List (String × String)) (children : List Outline)

def outlineAttributes (as : List Attribute) : List (String × String) := as.map fun a => (a.key, a.rawValue)

mutual

def Tag.outline : Tag → Outline
  | ⟨_, _, _, name, attributes, content, _, _⟩ =>
    .element name (outlineAttributes attributes) (match content with
      | some items => Content.outlines items
      | none => [])

def Content.outlines : List Content → List Outline
  | [] => []
  | .tag t :: cs => t.outline :: Content.outlines cs
  | .charData _ :: cs | .comment _ :: cs | .instruction _ :: cs => Content.outlines cs

end

theorem Content.outlines_append (cs ds : List Content) :
    Content.outlines (cs ++ ds) = Content.outlines cs ++ Content.outlines ds := by
  induction cs with
  | nil => rfl
  | cons c cs ih => cases c <;> simp [Content.outlines, ih]

mutual

theorem Tag.outline_anonymous (t : Tag) : t.anonymous.outline = t.outline := by
  obtain ⟨_, _, _, _, attributes, content, _, _⟩ := t
  have ha : outlineAttributes (attributes.map Attribute.anonymous) = outlineAttributes attributes := by
    rw [outlineAttributes, List.map_map]
    rfl
  cases content with
  | none => rw [Tag.anonymous, Tag.outline, Tag.outline, ha]
  | some items => rw [Tag.anonymous, Tag.outline, Tag.outline, ha, Content.outlines_anonymousAll items]

theorem Content.outlines_anonymousAll (cs : List Content) :
    Content.outlines (Content.anonymousAll cs) = Content.outlines cs := by
  match cs with
  | [] => rfl
  | .tag t :: cs =>
    rw [Content.anonymousAll, Content.anonymous, Content.outlines, Content.outlines, t.outline_anonymous,
      Content.outlines_anonymousAll cs]
  | .charData _ :: cs => exact Content.outlines_anonymousAll cs
  | .comment _ :: cs => exact Content.outlines_anonymousAll cs
  | .instruction _ :: cs => exact Content.outlines_anonymousAll cs

end

/-- The text in front of a bracket as an item, if a reader makes one of it. -/
def textRun (run : String) : List Content :=
  if Text.allBlank run then [] else [.charData { id := .none, leading := "", cdata := false, text := run }]

def lead (run : String) : String := if Text.allBlank run then run else ""

/-- The text in front of the closing tag; `pending` stands in front of the items, `last` behind them. -/
def trailing (pending last : String) : List Content → String
  | [] => pending ++ last
  | c :: cs => if c.isText then trailing (pending ++ c.print) last cs else trailing "" last cs

def Attribute.unmarked (a : Attribute) : Attribute := { a with markers := [] }

mutual

/-- The element that a reader makes of the text, behind the blanks given. -/
def Tag.tidied (leading : String) : Tag → Tag
  | ⟨id, _, _, name, attributes, content, closing, beforeClose⟩ =>
    match content, closing with
    | some items, some c =>
      ⟨id, leading, [], name, attributes.map Attribute.unmarked, some (Content.tidiedAll "" c.leading items),
        some { c with leading := lead (trailing "" c.leading items) }, beforeClose⟩
    | _, _ => ⟨id, leading, [], name, attributes.map Attribute.unmarked, none, none, beforeClose⟩

def Content.tidied (leading : String) : Content → Content
  | .tag t => .tag (t.tidied leading)
  | .charData d => .charData { d with leading }
  | .comment c => .comment { c with leading }
  | .instruction i => .instruction { i with leading }

def Content.tidiedAll (pending last : String) : List Content → List Content
  | [] => textRun (pending ++ last)
  | c :: cs =>
    if c.isText then Content.tidiedAll (pending ++ c.print) last cs
    else textRun (pending ++ c.leading) ++ c.tidied (lead (pending ++ c.leading)) :: Content.tidiedAll "" last cs

end

def Document.tidied (d : Document) : Document :=
  { d with
    kind := kindAt d.path
    markers := []
    prolog := { d.prolog with
      declaration := d.prolog.declaration.map fun x => { x with attributes := x.attributes.map Attribute.unmarked } }
    root := d.root.tidied d.root.leading }

theorem allBlank_lead (run : String) : Text.allBlank (lead run) = true := by
  unfold lead
  split
  · assumption
  · rfl

theorem Content.isText_tidied (c : Content) (leading : String) : (c.tidied leading).isText = c.isText := by
  cases c <;> rfl

theorem Content.leading_tidied (c : Content) (leading : String) : (c.tidied leading).leading = leading := by
  cases c with
  | tag t =>
    obtain ⟨_, _, _, _, _, content, closing, _⟩ := t
    cases content <;> cases closing <;> rfl
  | charData d => rfl
  | comment c => rfl
  | instruction i => rfl

theorem printAll_textRun (run : String) : Content.printAll (textRun run) ++ lead run = run := by
  unfold textRun lead
  split
  · exact String.empty_append
  · simp [Content.printAll, Content.print, CharData.print]

theorem printAttributes_unmarked (as : List Attribute) :
    printAttributes (as.map Attribute.unmarked) = printAttributes as := by
  rw [printAttributes, printAttributes, List.map_map]
  rfl

mutual

/-- Behind its blanks the element prints as before. -/
theorem Tag.exists_print_tidied (t : Tag) :
    ∃ s, t.print = t.leading ++ s ∧ ∀ leading, (t.tidied leading).print = leading ++ s := by
  obtain ⟨id, before, markers, name, attributes, content, closing, beforeClose⟩ := t
  match content, closing with
  | some items, some c =>
    refine ⟨"<" ++ name ++ printAttributes attributes ++ beforeClose ++ (">" ++ Content.printAll items ++ c.print),
      by simp only [Tag.print, String.append_assoc], fun leading => ?_⟩
    have body := Content.printAll_tidiedAll items "" c.leading
    rw [String.empty_append] at body
    have closed : (Closing.print { c with leading := lead (trailing "" c.leading items) }) =
        lead (trailing "" c.leading items) ++ ("</" ++ c.name ++ c.beforeClose ++ ">") := by
      simp only [Closing.print, String.append_assoc]
    have closing : c.print = c.leading ++ ("</" ++ c.name ++ c.beforeClose ++ ">") := by
      simp only [Closing.print, String.append_assoc]
    have inner : Content.printAll (Content.tidiedAll "" c.leading items) ++
        Closing.print { c with leading := lead (trailing "" c.leading items) } = Content.printAll items ++ c.print := by
      rw [closed, closing, ← String.append_assoc, body, String.append_assoc]
    simp only [Tag.tidied, Tag.print, printAttributes_unmarked, String.append_assoc, inner]
  | some _, none | none, some _ | none, none =>
    refine ⟨"<" ++ name ++ printAttributes attributes ++ beforeClose ++ "/>",
      by simp only [Tag.print, String.append_assoc], fun leading => ?_⟩
    simp only [Tag.tidied, Tag.print, printAttributes_unmarked, String.append_assoc]

theorem Content.exists_print_tidied (c : Content) :
    ∃ s, c.print = c.leading ++ s ∧ ∀ leading, (c.tidied leading).print = leading ++ s := by
  cases c with
  | tag t => exact t.exists_print_tidied
  | charData d =>
    obtain ⟨_, _, cdata, text⟩ := d
    cases cdata with
    | true =>
      exact ⟨"<![CDATA[" ++ text ++ "]]>",
        by simp [Content.print, CharData.print, Content.leading, String.append_assoc],
        fun leading => by simp [Content.tidied, Content.print, CharData.print, String.append_assoc]⟩
    | false => exact ⟨text, rfl, fun leading => rfl⟩
  | comment c =>
    exact ⟨"<!--" ++ c.text ++ "-->", by simp [Content.print, Comment.print, Content.leading, String.append_assoc],
      fun leading => by simp [Content.tidied, Content.print, Comment.print, String.append_assoc]⟩
  | instruction i =>
    exact ⟨"<?" ++ i.target ++ i.content ++ "?>",
      by simp [Content.print, Instruction.print, Content.leading, String.append_assoc],
      fun leading => by simp [Content.tidied, Content.print, Instruction.print, String.append_assoc]⟩

theorem Content.printAll_tidiedAll (cs : List Content) (pending last : String) :
    Content.printAll (Content.tidiedAll pending last cs) ++ lead (trailing pending last cs) =
      pending ++ Content.printAll cs ++ last := by
  cases cs with
  | nil => rw [Content.tidiedAll, trailing, printAll_textRun, Content.printAll, String.append_empty]
  | cons c cs =>
    by_cases ht : c.isText = true
    · rw [Content.tidiedAll, trailing, if_pos ht, if_pos ht, Content.printAll_tidiedAll cs, Content.printAll]
      simp only [String.append_assoc]
    · obtain ⟨s, printed, tidied⟩ := c.exists_print_tidied
      have rest := Content.printAll_tidiedAll cs "" last
      have run := printAll_textRun (pending ++ c.leading)
      rw [String.empty_append] at rest
      rw [Content.tidiedAll, trailing, if_neg ht, if_neg ht, Content.printAll_append, Content.printAll,
        Content.printAll, tidied, printed]
      calc Content.printAll (textRun (pending ++ c.leading)) ++
            (lead (pending ++ c.leading) ++ s ++ Content.printAll (Content.tidiedAll "" last cs)) ++
            lead (trailing "" last cs)
          = (Content.printAll (textRun (pending ++ c.leading)) ++ lead (pending ++ c.leading)) ++ s ++
            (Content.printAll (Content.tidiedAll "" last cs) ++ lead (trailing "" last cs)) := by
              simp only [String.append_assoc]
        _ = (pending ++ c.leading) ++ s ++ (Content.printAll cs ++ last) := by rw [run, rest]
        _ = pending ++ (c.leading ++ s ++ Content.printAll cs) ++ last := by simp only [String.append_assoc]

end

theorem Document.print_tidied (d : Document) : d.tidied.print = d.print := by
  obtain ⟨s, printed, tidied⟩ := d.root.exists_print_tidied
  have prolog : d.tidied.prolog.print = d.prolog.print := by
    rw [Document.tidied, Prolog.print, Prolog.print]
    cases d.prolog.declaration with
    | none => rfl
    | some x => simp [Declaration.print, printAttributes_unmarked]
  have root : d.tidied.root.print = d.root.print := (tidied _).trans printed.symm
  rw [Document.print, Document.print, prolog, root]
  rfl

theorem outlines_textRun (run : String) : Content.outlines (textRun run) = [] := by
  unfold textRun
  split <;> rfl

mutual

theorem Tag.outline_tidied (t : Tag) (h : ∀ u ∈ t.elements, u.Lawful) (leading : String) :
    (t.tidied leading).outline = t.outline := by
  obtain ⟨id, before, markers, name, attributes, content, closing, beforeClose⟩ := t
  have body := (h _ (Tag.mem_elements_self _)).body
  have ha : outlineAttributes (attributes.map Attribute.unmarked) = outlineAttributes attributes := by
    rw [outlineAttributes, List.map_map]
    rfl
  match content, closing with
  | some items, some c =>
    have hi : ∀ u ∈ Content.elementsAll items, u.Lawful := fun u hu =>
      h u (Tag.mem_elements_iff.2 (.inr ⟨items, rfl, hu⟩))
    simp only [Tag.tidied, Tag.outline, ha, Content.outlines_tidiedAll items hi]
  | none, none => simp only [Tag.tidied, Tag.outline, ha]
  | some _, none => exact body.elim
  | none, some _ => exact body.elim

theorem Content.outlines_tidiedAll (cs : List Content) (h : ∀ u ∈ Content.elementsAll cs, u.Lawful)
    (pending last : String) : Content.outlines (Content.tidiedAll pending last cs) = Content.outlines cs := by
  match cs with
  | [] => exact outlines_textRun _
  | c :: cs =>
    have hc : ∀ u ∈ c.elements, u.Lawful := fun u hu => h u (List.mem_append_left _ hu)
    have ih := Content.outlines_tidiedAll cs fun u hu => h u (List.mem_append_right _ hu)
    cases c with
    | tag t =>
      rw [Content.tidiedAll, if_neg (by simp [Content.isText]), Content.outlines_append, outlines_textRun,
        List.nil_append, Content.tidied, Content.outlines, Content.outlines, t.outline_tidied hc, ih]
    | charData d =>
      by_cases hd : (Content.charData d).isText = true
      · rw [Content.tidiedAll, if_pos hd, ih]
        rfl
      · rw [Content.tidiedAll, if_neg hd, Content.outlines_append, outlines_textRun]
        exact ih "" last
    | comment c =>
      rw [Content.tidiedAll, if_neg (by simp [Content.isText]), Content.outlines_append, outlines_textRun]
      exact ih "" last
    | instruction i =>
      rw [Content.tidiedAll, if_neg (by simp [Content.isText]), Content.outlines_append, outlines_textRun]
      exact ih "" last

end

theorem elementsAll_textRun (run : String) : Content.elementsAll (textRun run) = [] := by
  unfold textRun
  split <;> rfl

theorem depthAll_textRun (run : String) : Content.depthAll (textRun run) = 0 := by
  unfold textRun
  split <;> rfl

mutual

theorem Tag.depth_tidied_le (t : Tag) (leading : String) : (t.tidied leading).depth ≤ t.depth := by
  obtain ⟨_, _, _, _, _, content, closing, _⟩ := t
  match content, closing with
  | some items, some c =>
    rw [Tag.tidied, Tag.depth, Tag.depth, Content.depthBody, Content.depthBody]
    exact Nat.succ_le_succ (Content.depthAll_tidiedAll_le items "" c.leading)
  | some _, none | none, some _ | none, none => exact Nat.succ_le_succ (Nat.zero_le _)

theorem Content.depth_tidied_le (c : Content) (leading : String) : (c.tidied leading).depth ≤ c.depth := by
  cases c with
  | tag t => exact t.depth_tidied_le leading
  | charData _ | comment _ | instruction _ => exact Nat.le_refl 0

theorem Content.depthAll_tidiedAll_le (cs : List Content) (pending last : String) :
    Content.depthAll (Content.tidiedAll pending last cs) ≤ Content.depthAll cs := by
  cases cs with
  | nil => exact Nat.le_of_eq (depthAll_textRun _)
  | cons c cs =>
    by_cases ht : c.isText = true
    · rw [Content.tidiedAll, if_pos ht, Content.depthAll]
      exact Nat.le_trans (Content.depthAll_tidiedAll_le cs _ last) (Nat.le_max_right _ _)
    · rw [Content.tidiedAll, if_neg ht, Content.depthAll_append, depthAll_textRun, Nat.zero_max, Content.depthAll,
        Content.depthAll]
      have first := c.depth_tidied_le (lead (pending ++ c.leading))
      have rest := Content.depthAll_tidiedAll_le cs "" last
      omega

end

theorem Separated.cons {last : String} {c : Content} {cs : List Content} (hc : c.isText = false)
    (h : Separated last cs) : Separated last (c :: cs) := by
  cases cs with
  | nil =>
    intro ht
    rw [hc] at ht
    cases ht
  | cons d ds =>
    refine ⟨fun ht => ?_, h⟩
    rw [hc] at ht
    cases ht

/-- A run of text stands in front of an item that has no blanks left. -/
theorem Separated.textRun_append {last run : String} {c : Content} {cs : List Content} (hc : c.isText = false)
    (hl : c.leading = lead run) (h : Separated last (c :: cs)) : Separated last (textRun run ++ c :: cs) := by
  unfold textRun
  unfold lead at hl
  split
  · exact h
  next hb =>
    rw [if_neg hb] at hl
    exact ⟨fun _ => ⟨hl, hc⟩, h⟩

theorem separated_textRun (run : String) : Separated (lead run) (textRun run) := by
  unfold textRun lead
  split
  · trivial
  · exact fun _ => rfl

theorem separated_tidiedAll (cs : List Content) (pending last : String) :
    Separated (lead (trailing pending last cs)) (Content.tidiedAll pending last cs) := by
  induction cs generalizing pending with
  | nil =>
    rw [Content.tidiedAll, trailing]
    exact separated_textRun _
  | cons c cs ih =>
    rw [Content.tidiedAll, trailing]
    by_cases ht : c.isText = true
    · rw [if_pos ht, if_pos ht]
      exact ih _
    · rw [if_neg ht, if_neg ht]
      have hc := (c.isText_tidied (lead (pending ++ c.leading))).trans (Bool.eq_false_iff.2 ht)
      exact Separated.textRun_append hc (c.leading_tidied _) (.cons hc (ih ""))

theorem normalLeaf_textRun {run : String} (h : '<' ∉ run.toList) : ∀ c ∈ textRun run, c.NormalLeaf := by
  intro c hc
  unfold textRun at hc
  split at hc
  · cases hc
  next hb =>
    obtain rfl := List.mem_singleton.1 hc
    exact ⟨rfl, Bool.eq_false_iff.2 hb, h⟩

/-- An item that is not a run of text. -/
theorem Content.normalLeaf_tidied {c : Content} (ht : ¬c.isText = true) (lawful : c.LawfulLeaf)
    (lexical : c.LexicalLeaf) {leading : String} (hl : Text.allBlank leading = true) :
    (c.tidied leading).NormalLeaf := by
  cases c with
  | tag t => trivial
  | charData d =>
    obtain ⟨id, before, cdata, text⟩ := d
    cases cdata with
    | true => exact ⟨hl, lawful⟩
    | false => exact absurd rfl ht
  | comment c => exact ⟨hl, lawful⟩
  | instruction i => exact ⟨hl, lexical.target, lexical.content, lawful⟩

/-- What is known of an element that keeps the rules and whose fields a reader finds. -/
structure Tag.Contained (t : Tag) : Prop where
  lawful : t.Lawful
  lexical : t.Lexical
  values : NoBracket t.attributes

/-- The same of an item; of an element it says what stands in front of it. -/
structure Content.Contained (c : Content) : Prop where
  lawful : c.LawfulLeaf
  lexical : c.LexicalLeaf
  leading : Text.allBlank c.leading = true

theorem Content.contained_of_mem {items : List Content} (lawful : ∀ c ∈ items, c.LawfulLeaf)
    (lexical : ∀ c ∈ items, c.LexicalLeaf) (h : ∀ u ∈ Content.elementsAll items, u.Contained) :
    ∀ c ∈ items, c.Contained := by
  intro c hc
  refine ⟨lawful c hc, lexical c hc, ?_⟩
  have here := lexical c hc
  cases c with
  | tag t => exact (h t (Content.mem_elementsAll_iff.2 ⟨_, hc, t.mem_elements_self⟩)).lexical.leading
  | charData d => exact here
  | comment c => exact here
  | instruction i => exact here.leading

theorem not_mem_append {s t : String} {c : Char} (hs : c ∉ s.toList) (ht : c ∉ t.toList) : c ∉ (s ++ t).toList := by
  rw [String.toList_append, List.mem_append]
  exact not_or.2 ⟨hs, ht⟩

/-- A run of text prints no bracket. -/
theorem Content.Contained.not_mem_print {c : Content} (h : c.Contained) (ht : c.isText = true) :
    '<' ∉ c.print.toList := by
  cases c with
  | charData d =>
    obtain ⟨id, leading, cdata, text⟩ := d
    cases cdata with
    | true => cases ht
    | false => exact not_mem_append (Text.not_mem_of_allBlank h.leading rfl) h.lawful
  | tag _ | comment _ | instruction _ => cases ht

theorem normalLeaf_tidiedAll {cs : List Content} (h : ∀ c ∈ cs, c.Contained) {pending last : String}
    (hp : '<' ∉ pending.toList) (hl : Text.allBlank last = true) :
    ∀ c ∈ Content.tidiedAll pending last cs, c.NormalLeaf := by
  induction cs generalizing pending with
  | nil =>
    rw [Content.tidiedAll]
    exact normalLeaf_textRun (not_mem_append hp (Text.not_mem_of_allBlank hl rfl))
  | cons c cs ih =>
    have hc := h c List.mem_cons_self
    have rest : ∀ pending : String, '<' ∉ pending.toList →
        ∀ d ∈ Content.tidiedAll pending last cs, d.NormalLeaf := fun pending hp =>
      ih (fun d hd => h d (List.mem_cons_of_mem _ hd)) hp
    rw [Content.tidiedAll]
    by_cases ht : c.isText = true
    · rw [if_pos ht]
      exact rest _ (not_mem_append hp (hc.not_mem_print ht))
    · rw [if_neg ht]
      intro d hd
      obtain hd | hd := List.mem_append.1 hd
      · exact normalLeaf_textRun (not_mem_append hp (Text.not_mem_of_allBlank hc.leading rfl)) d hd
      · obtain rfl | hd := List.mem_cons.1 hd
        · exact Content.normalLeaf_tidied ht hc.lawful hc.lexical (allBlank_lead _)
        · exact rest "" List.not_mem_nil d hd

theorem Attribute.normal_unmarked {a : Attribute} (lawful : a.Lawful) (lexical : a.Lexical)
    (value : '<' ∉ a.rawValue.toList) : a.unmarked.Normal where
  leading := lexical.leading
  markers := rfl
  key := lexical.key
  beforeEquals := lexical.beforeEquals
  afterEquals := lexical.afterEquals
  quote := lawful
  markup := value

theorem normal_map_unmarked {as : List Attribute} (lawful : ∀ a ∈ as, a.Lawful) (lexical : ∀ a ∈ as, a.Lexical)
    (values : NoBracket as) : ∀ a ∈ as.map Attribute.unmarked, a.Normal ∧ a.leading ≠ "" := by
  intro a ha
  obtain ⟨b, hb, rfl⟩ := List.mem_map.1 ha
  exact ⟨b.normal_unmarked (lawful b hb) (lexical b hb) (values b hb), (lexical b hb).apart⟩

theorem Tag.normal_tidied {t : Tag} (h : ∀ u ∈ t.elements, u.Contained) {leading : String}
    (hl : Text.allBlank leading = true) : (t.tidied leading).Normal := by
  obtain ⟨id, before, markers, name, attributes, content, closing, beforeClose⟩ := t
  obtain ⟨lawful, lexical, values⟩ := h _ (Tag.mem_elements_self _)
  have ha := normal_map_unmarked lawful.attributes lexical.attributes values
  match content, closing with
  | some items, some c =>
    obtain ⟨hn, hi⟩ := lawful.body
    have hc := lexical.closing c rfl
    have contained := Content.contained_of_mem hi (lexical.items items rfl) fun u hu =>
      h u (Tag.mem_elements_iff.2 (.inr ⟨items, rfl, hu⟩))
    exact ⟨hl, rfl, lexical.name, lexical.noDeclaration, ha, lexical.beforeClose,
      normalLeaf_tidiedAll contained List.not_mem_nil hc.leading, separated_tidiedAll items "" c.leading,
      ⟨allBlank_lead _, hn, hc.beforeClose⟩⟩
  | none, none => exact ⟨hl, rfl, lexical.name, lexical.noDeclaration, ha, lexical.beforeClose, trivial⟩
  | some _, none => exact lawful.body.elim
  | none, some _ => exact lawful.body.elim

mutual

theorem Tag.normal_elements_tidied (t : Tag) (h : ∀ u ∈ t.elements, u.Contained) {leading : String}
    (hl : Text.allBlank leading = true) : ∀ u ∈ (t.tidied leading).elements, u.Normal := by
  intro u hu
  obtain rfl | ⟨items, hi, hu⟩ := Tag.mem_elements_iff.1 hu
  · exact Tag.normal_tidied h hl
  · obtain ⟨id, before, markers, name, attributes, content, closing, beforeClose⟩ := t
    match content, closing with
    | some cs, some c =>
      cases hi
      exact Content.normal_elements_tidiedAll cs
        (fun v hv => h v (Tag.mem_elements_iff.2 (.inr ⟨cs, rfl, hv⟩))) "" c.leading u hu
    | some _, none | none, some _ | none, none => cases hi

theorem Content.normal_elements_tidied (c : Content) (h : ∀ u ∈ c.elements, u.Contained) {leading : String}
    (hl : Text.allBlank leading = true) : ∀ u ∈ (c.tidied leading).elements, u.Normal := by
  cases c with
  | tag t => exact t.normal_elements_tidied h hl
  | charData _ | comment _ | instruction _ => exact fun u hu => absurd hu List.not_mem_nil

theorem Content.normal_elements_tidiedAll (cs : List Content) (h : ∀ u ∈ Content.elementsAll cs, u.Contained)
    (pending last : String) : ∀ u ∈ Content.elementsAll (Content.tidiedAll pending last cs), u.Normal := by
  cases cs with
  | nil =>
    rw [Content.tidiedAll, elementsAll_textRun]
    exact fun u hu => absurd hu List.not_mem_nil
  | cons c cs =>
    have hc : ∀ u ∈ c.elements, u.Contained := fun u hu => h u (List.mem_append_left _ hu)
    have hcs : ∀ u ∈ Content.elementsAll cs, u.Contained := fun u hu => h u (List.mem_append_right _ hu)
    by_cases ht : c.isText = true
    · rw [Content.tidiedAll, if_pos ht]
      exact Content.normal_elements_tidiedAll cs hcs _ last
    · rw [Content.tidiedAll, if_neg ht, Content.elementsAll_append, elementsAll_textRun, List.nil_append,
      Content.elementsAll]
      intro u hu
      obtain hu | hu := List.mem_append.1 hu
      · exact c.normal_elements_tidied hc (allBlank_lead _) u hu
      · exact Content.normal_elements_tidiedAll cs hcs "" last u hu

end

theorem Misc.normal_of_lexical {m : Misc} (lawful : m.Lawful) (lexical : m.Lexical) (kind : m.isDocType = false) :
    m.Normal := by
  cases m with
  | comment c => exact ⟨lexical, lawful⟩
  | instruction i => exact ⟨lexical.leading, lexical.target, lexical.content, lawful⟩
  | docType d => cases kind

theorem Document.normal_tidied {d : Document} (accepted : d.check = .ok ()) (lexical : d.Lexical)
    (noDocType : d.NoDocType) (values : d.NoBracketInValues) : d.tidied.Normal := by
  obtain ⟨lawful, deep⟩ := Document.check_eq_ok.1 accepted
  have contained : ∀ t ∈ d.root.elements, t.Contained := fun t ht =>
    ⟨lawful.elements t ht, lexical.elements t ht, values.elements t ht⟩
  have root := lexical.elements _ d.root.mem_elements_self
  constructor
  case kind => rfl
  case markers => rfl
  case declaration =>
    intro x hx
    obtain ⟨y, hy, rfl⟩ := Option.map_eq_some_iff.1 hx
    obtain ⟨hl, ha, hb⟩ := lexical.declaration y hy
    have normal := normal_map_unmarked (lawful.declaration y hy) ha (values.declaration y hy)
    exact ⟨hl, fun a ha => (normal a ha).1, fun a ha => (normal a (List.mem_of_mem_head? ha)).2, hb⟩
  case misc =>
    exact fun m hm => Misc.normal_of_lexical (lawful.misc m hm) (lexical.misc m hm)
      (noDocType m (List.mem_append_left _ hm))
  case first => exact fun none => lexical.first (Option.map_eq_none_iff.1 none)
  case elements => exact d.root.normal_elements_tidied contained root.leading
  case depth => exact Nat.le_trans (d.root.depth_tidied_le _) deep
  case epilog =>
    intro m hm
    have kind := noDocType m (List.mem_append_right _ hm)
    exact ⟨Misc.normal_of_lexical (lawful.epilog m hm) (lexical.epilog m hm) kind, kind⟩
  case eof => exact lawful.eof

/-- Whatever the payloads of an accepted document hold, brackets in attribute values apart: its text is read again, and
as the same elements with the same attributes. -/
theorem parse_print_of_check {d : Document} (accepted : d.check = .ok ()) (lexical : d.Lexical)
    (noDocType : d.NoDocType) (values : d.NoBracketInValues) (ids : Supply) :
    ∃ d' ids', (Document.parse d.path d.print).run.run ids = (.ok d', ids') ∧ d'.root.outline = d.root.outline := by
  obtain ⟨d', ids', parsed, same⟩ := parse_print_of_normal (d.normal_tidied accepted lexical noDocType values) ids
  rw [d.print_tidied] at parsed
  have roots : d'.root.anonymous = d.tidied.root.anonymous := congrArg Document.root same
  have lawful := (Document.check_eq_ok.1 accepted).1.elements
  refine ⟨d', ids', parsed, ?_⟩
  calc d'.root.outline = d'.root.anonymous.outline := d'.root.outline_anonymous.symm
    _ = d.tidied.root.outline := by rw [roots, Tag.outline_anonymous]
    _ = d.root.outline := d.root.outline_tidied lawful _

def elementAround (attributes : List Attribute) (content : List Content) : Document where
  id := .none
  path := ⟨"a.xml"⟩
  kind := .xml
  markers := []
  bom := false
  prolog := { id := .none, declaration := none, misc := [] }
  root := ⟨.none, "", [], "a", attributes, some content, some ⟨.none, "\n", "a", ""⟩, ""⟩
  epilog := []
  eof := ""

/-- Runs of text side by side, blank or not, and text that looks like the end of something. -/
def adjacentTexts : Document := elementAround [⟨.none, " ", [], "k", "", "", .double, "/>'"⟩] [
  .charData ⟨.none, " ", false, "]]>"⟩, .charData ⟨.none, "", false, " "⟩,
  .tag ⟨.none, "\t", [], "e", [], none, none, ""⟩, .charData ⟨.none, "", false, " "⟩,
  .comment ⟨.none, "", "->"⟩]

theorem parse_print_of_check_adjacentTexts : ∃ d' ids',
    (Document.parse adjacentTexts.path adjacentTexts.print).run.run {} = (.ok d', ids') ∧
      d'.root.outline = .element "a" [("k", "/>'")] [.element "e" [] []] :=
  parse_print_of_check (d := adjacentTexts) (by decide +kernel) (by decide +kernel) (by decide +kernel)
    (by decide +kernel) {}

/-- A bracket in an attribute value is accepted and not read again. -/
theorem bracket_in_value_not_read : ∃ d : Document, d.check = .ok () ∧ d.Lexical ∧ d.NoDocType ∧
    ((Document.parse d.path d.print).run.run {}).1.toBool = false :=
  ⟨elementAround [⟨.none, " ", [], "k", "", "", .double, "<"⟩] [], by decide +kernel⟩

end Emend.Markup
