import Emend.Parsing
import Emend.Proofs.Markup.Elements
import Mathlib.Tactic.MkIffOfInductiveProp

/-! # Documents in normal form

A document is in normal form if no field of it would be read as part of a neighbour once it is printed: runs
of blanks and names end where their fields do, and no payload holds what ends it. Every clause can be
decided.
-/

namespace Emend.Markup

/-- A name that is read as a whole: not empty, and nothing in it ends a name. -/
def IsName (s : String) : Prop := s.toList ≠ [] ∧ ∀ c ∈ s.toList, isNameEnd c = false

instance (s : String) : Decidable (IsName s) :=
  have := List.decidableBAll (fun c => isNameEnd c = false) s.toList
  instDecidableAnd

/-- Names end where this begins. -/
def EndsName (s : String) : Prop := ∀ c ∈ s.toList.head?, isNameEnd c = true

instance (s : String) : Decidable (EndsName s) := Option.decidableForallMem _

@[mk_iff] structure Attribute.Normal (a : Attribute) : Prop where
  leading : Text.allBlank a.leading = true
  markers : a.markers = []
  key : IsName a.key
  beforeEquals : Text.allBlank a.beforeEquals = true
  afterEquals : Text.allBlank a.afterEquals = true
  quote : a.quote.char ∉ a.rawValue.toList
  markup : '<' ∉ a.rawValue.toList

instance (a : Attribute) : Decidable a.Normal := decidable_of_iff _ (Attribute.normal_iff a).symm

@[mk_iff] structure Closing.Normal (name : String) (c : Closing) : Prop where
  leading : Text.allBlank c.leading = true
  name : c.name = name
  beforeClose : Text.allBlank c.beforeClose = true

instance (name : String) (c : Closing) : Decidable (c.Normal name) :=
  decidable_of_iff _ (Closing.normal_iff name c).symm

/-- A run of text: something in it is not blank, and nothing in it is a bracket. -/
@[mk_iff] structure CharData.NormalText (d : CharData) : Prop where
  leading : d.leading = ""
  notBlank : Text.allBlank d.text = false
  markup : '<' ∉ d.text.toList

instance (d : CharData) : Decidable d.NormalText := decidable_of_iff _ (CharData.normalText_iff d).symm

@[mk_iff] structure CharData.NormalCdata (d : CharData) : Prop where
  leading : Text.allBlank d.leading = true
  terminator : Text.contains [']', ']', '>'] d.text.toList = false

instance (d : CharData) : Decidable d.NormalCdata := decidable_of_iff _ (CharData.normalCdata_iff d).symm

@[mk_iff] structure Comment.Normal (c : Comment) : Prop where
  leading : Text.allBlank c.leading = true
  terminator : Text.contains ['-', '-', '>'] c.text.toList = false

instance (c : Comment) : Decidable c.Normal := decidable_of_iff _ (Comment.normal_iff c).symm

@[mk_iff] structure Instruction.Normal (i : Instruction) : Prop where
  leading : Text.allBlank i.leading = true
  target : IsName i.target
  content : EndsName i.content
  terminator : Text.contains ['?', '>'] i.content.toList = false

instance (i : Instruction) : Decidable i.Normal := decidable_of_iff _ (Instruction.normal_iff i).symm

/-- The search for the end of the body stops at the closing bracket and not before. -/
@[mk_iff] structure DocType.Normal (d : DocType) : Prop where
  leading : Text.allBlank d.leading = true
  body : breakDocType none 0 (d.body.toList ++ ['>']) = some (d.body.toList, [])

instance (d : DocType) : Decidable d.Normal := decidable_of_iff _ (DocType.normal_iff d).symm

def Misc.Normal : Misc → Prop
  | comment c => c.Normal
  | instruction i => i.Normal
  | docType d => d.Normal

instance : (m : Misc) → Decidable m.Normal
  | .comment c => inferInstanceAs (Decidable c.Normal)
  | .instruction i => inferInstanceAs (Decidable i.Normal)
  | .docType d => inferInstanceAs (Decidable d.Normal)

def Content.leading : Content → String
  | .tag t => t.leading
  | .charData d => d.leading
  | .comment c => c.leading
  | .instruction i => i.leading

def Content.isText : Content → Bool
  | .charData d => !d.cdata
  | _ => false

def Content.NormalLeaf : Content → Prop
  | .tag _ => True
  | .charData d => if d.cdata then d.NormalCdata else d.NormalText
  | .comment c => c.Normal
  | .instruction i => i.Normal

instance : (c : Content) → Decidable c.NormalLeaf
  | .tag _ => inferInstanceAs (Decidable True)
  | .charData d => inferInstanceAs (Decidable (if d.cdata then d.NormalCdata else d.NormalText))
  | .comment c => inferInstanceAs (Decidable c.Normal)
  | .instruction i => inferInstanceAs (Decidable i.Normal)

/-- No two runs of text stand side by side, and nothing stands in front of what follows one, be it an item
or, with `last` in front, the closing tag. -/
def Separated (last : String) : List Content → Prop
  | [] => True
  | [c] => c.isText → last = ""
  | c :: d :: cs => (c.isText → d.leading = "" ∧ d.isText = false) ∧ Separated last (d :: cs)

instance decidableSeparated (last : String) : (items : List Content) → Decidable (Separated last items)
  | [] => inferInstanceAs (Decidable True)
  | [c] => inferInstanceAs (Decidable (c.isText → last = ""))
  | c :: d :: cs =>
    have := decidableSeparated last (d :: cs)
    inferInstanceAs (Decidable ((c.isText → d.leading = "" ∧ d.isText = false) ∧ Separated last (d :: cs)))

/-- What stands in front of an item and whether it is text is all that its neighbours depend on. -/
theorem separated_congr {last : String} {items items' : List Content}
    (h : items.map (fun c => (c.leading, c.isText)) = items'.map (fun c => (c.leading, c.isText))) :
    Separated last items ↔ Separated last items' := by
  induction items generalizing items' with
  | nil =>
    rw [List.map_nil, eq_comm, List.map_eq_nil_iff] at h
    rw [h]
  | cons c cs ih =>
    cases items' with
    | nil => cases h
    | cons c' cs' =>
      obtain ⟨hc, hcs⟩ := List.cons.inj h
      obtain ⟨-, text⟩ := Prod.mk.inj hc
      have tail := ih hcs
      cases cs with
      | nil =>
        obtain rfl : cs' = [] := List.map_eq_nil_iff.1 hcs.symm
        rw [Separated, Separated, text]
      | cons d ds =>
        cases cs' with
        | nil => cases hcs
        | cons d' ds' =>
          obtain ⟨hd, -⟩ := List.cons.inj hcs
          obtain ⟨leading', text'⟩ := Prod.mk.inj hd
          rw [Separated, Separated, tail, text, leading', text']

/-- Content and closing tag come together. -/
def NormalBody (name : String) : Option (List Content) → Option Closing → Prop
  | none, none => True
  | some items, some closing =>
    (∀ c ∈ items, c.NormalLeaf) ∧ Separated closing.leading items ∧ closing.Normal name
  | _, _ => False

instance (name : String) : (content : Option (List Content)) → (closing : Option Closing) →
    Decidable (NormalBody name content closing)
  | none, none => inferInstanceAs (Decidable True)
  | some items, some closing => inferInstanceAs
      (Decidable ((∀ c ∈ items, c.NormalLeaf) ∧ Separated closing.leading items ∧ closing.Normal name))
  | some _, none | none, some _ => inferInstanceAs (Decidable False)

/-- What an element has to satisfy itself; the elements inside it are not looked at. -/
@[mk_iff] structure Tag.Normal (t : Tag) : Prop where
  leading : Text.allBlank t.leading = true
  markers : t.markers = []
  name : IsName t.name
  noDeclaration : t.name.toList.head? ≠ some '!'
  attributes : ∀ a ∈ t.attributes, a.Normal ∧ a.leading ≠ ""
  beforeClose : Text.allBlank t.beforeClose = true
  body : NormalBody t.name t.content t.closing

instance (t : Tag) : Decidable t.Normal := decidable_of_iff _ (Tag.normal_iff t).symm

/-- The same, whatever the name begins with. -/
@[mk_iff] structure Tag.Sound (t : Tag) : Prop where
  leading : Text.allBlank t.leading = true
  markers : t.markers = []
  name : IsName t.name
  attributes : ∀ a ∈ t.attributes, a.Normal ∧ a.leading ≠ ""
  beforeClose : Text.allBlank t.beforeClose = true
  body : NormalBody t.name t.content t.closing

theorem Tag.normal_iff_sound {t : Tag} : t.Normal ↔ t.Sound ∧ t.name.toList.head? ≠ some '!' := by
  constructor
  · rintro ⟨hl, hm, hn, hd, ha, hc, hb⟩
    exact ⟨⟨hl, hm, hn, ha, hc, hb⟩, hd⟩
  · rintro ⟨⟨hl, hm, hn, ha, hc, hb⟩, hd⟩
    exact ⟨hl, hm, hn, hd, ha, hc, hb⟩

theorem Tag.Normal.sound {t : Tag} (h : t.Normal) : t.Sound := (Tag.normal_iff_sound.1 h).1

/-- The first attribute is kept apart from the opening. -/
@[mk_iff] structure Declaration.Normal (d : Declaration) : Prop where
  leading : Text.allBlank d.leading = true
  attributes : ∀ a ∈ d.attributes, a.Normal
  first : ∀ a ∈ d.attributes.head?, a.leading ≠ ""
  beforeClose : Text.allBlank d.beforeClose = true

instance (d : Declaration) : Decidable d.Normal := decidable_of_iff _ (Declaration.normal_iff d).symm

/-- An instruction that would be read as a declaration at the beginning of a document. -/
def Misc.LooksLikeDeclaration : Misc → Prop
  | instruction i => i.target = "xml" ∧ ∀ c ∈ i.content.toList.head?, Text.isBlank c = true ∨ c = '?'
  | comment _ | docType _ => False

instance : (m : Misc) → Decidable m.LooksLikeDeclaration
  | .instruction i =>
    have : Decidable (∀ c ∈ i.content.toList.head?, Text.isBlank c = true ∨ c = '?') := Option.decidableForallMem _
    instDecidableAnd
  | .comment _ | .docType _ => inferInstanceAs (Decidable False)

def Misc.isDocType : Misc → Bool
  | docType _ => true
  | comment _ | instruction _ => false

@[mk_iff] structure Document.Normal (d : Document) : Prop where
  kind : d.kind = kindAt d.path
  markers : d.markers = []
  declaration : ∀ x ∈ d.prolog.declaration, x.Normal
  misc : ∀ m ∈ d.prolog.misc, m.Normal
  first : d.prolog.declaration = none → ∀ m ∈ d.prolog.misc.head?, ¬m.LooksLikeDeclaration
  elements : ∀ t ∈ d.root.elements, t.Normal
  depth : d.root.depth ≤ maxDepth
  epilog : ∀ m ∈ d.epilog, m.Normal ∧ m.isDocType = false
  eof : Text.allBlank d.eof = true

instance (d : Document) : Decidable d.Normal := decidable_of_iff _ (Document.normal_iff d).symm

/-- The name of a root element may begin as that of no element inside it may: only a comment or a document type
is never read as an element. -/
@[mk_iff] structure Document.Readable (d : Document) : Prop where
  kind : d.kind = kindAt d.path
  markers : d.markers = []
  declaration : ∀ x ∈ d.prolog.declaration, x.Normal
  misc : ∀ m ∈ d.prolog.misc, m.Normal
  first : d.prolog.declaration = none → ∀ m ∈ d.prolog.misc.head?, ¬m.LooksLikeDeclaration
  elements : ∀ t ∈ d.root.elements, t.Sound
  inner : ∀ t ∈ Content.elementsBody d.root.content, t.name.toList.head? ≠ some '!'
  noComment : Text.startsWith d.root.name.toList ['!', '-', '-'] = false
  noDocType : Text.startsWith d.root.name.toList "!DOCTYPE".toList = false
  depth : d.root.depth ≤ maxDepth
  epilog : ∀ m ∈ d.epilog, m.Normal ∧ m.isDocType = false
  eof : Text.allBlank d.eof = true

theorem Document.Normal.readable {d : Document} (h : d.Normal) : d.Readable := by
  have apart {c : Char} {p : List Char} (hc : c = '!') : Text.startsWith d.root.name.toList (c :: p) = false := by
    have hn := (h.elements _ d.root.mem_elements_self).noDeclaration
    subst hc
    unfold Text.startsWith
    cases e : d.root.name.toList with
    | nil => rfl
    | cons x s =>
      rw [e] at hn
      have hx : '!' ≠ x := fun hx => hn (congrArg some hx.symm)
      rw [Text.after?, if_neg hx]
      rfl
  refine ⟨h.kind, h.markers, h.declaration, h.misc, h.first, fun t ht => (h.elements t ht).sound, fun t ht => ?_,
    apart rfl, apart rfl, h.depth, h.epilog, h.eof⟩
  have hm := Content.mem_elementsBody_iff.1 ht
  exact (h.elements t (Tag.mem_elements_iff.2 (.inr hm))).noDeclaration

end Emend.Markup
