import Emend.Markup.TagEdit
import Emend.Proofs.Markup.Values
import Emend.Proofs.Markup.Vetting

/-! # Nodes that were made

The nodes that come from documents that were read, from making nodes and from changing nodes, as often as wanted. All
of them keep their rules (`Made.lawful`), and a document that does is refused for the depth of its elements or not at
all (`Document.Lawful.check_eq`).
-/

namespace Emend.Markup

/-- A node of any kind that can be handed on alone. -/
inductive Node where
  | attr (a : Attribute)
  | charData (d : CharData)
  | comment (c : Comment)
  | instruction (i : Instruction)
  | docType (d : DocType)
  | tag (t : Tag)
  | declaration (x : Declaration)
  | prolog (p : Prolog)
  | document (d : Document)

def Content.node : Content → Node
  | tag t => .tag t
  | charData d => .charData d
  | comment c => .comment c
  | instruction i => .instruction i

def Misc.node : Misc → Node
  | comment c => .comment c
  | instruction i => .instruction i
  | docType d => .docType d

inductive PartOf : Node → Node → Prop
  | attr {t : Tag} {a : Attribute} (h : a ∈ t.attributes) : PartOf (.attr a) (.tag t)
  | item {t : Tag} {items : List Content} {c : Content} (hi : items ∈ t.content) (hc : c ∈ items) :
    PartOf c.node (.tag t)
  | pseudoAttribute {x : Declaration} {a : Attribute} (h : a ∈ x.attributes) : PartOf (.attr a) (.declaration x)
  | declaration {p : Prolog} {x : Declaration} (h : x ∈ p.declaration) : PartOf (.declaration x) (.prolog p)
  | misc {p : Prolog} {m : Misc} (h : m ∈ p.misc) : PartOf m.node (.prolog p)
  | prolog {d : Document} : PartOf (.prolog d.prolog) (.document d)
  | root {d : Document} : PartOf (.tag d.root) (.document d)
  | epilog {d : Document} {m : Misc} (h : m ∈ d.epilog) : PartOf m.node (.document d)

/-- Ids may come from any supply. A closing tag has no rule of its own, so any may be given. -/
inductive Made : Node → Prop
  | parsed {path : FilePath} {source : String} {ids ids' : Supply} {d : Document}
    (h : (Document.parse path source).run.run ids = (.ok d, ids')) : Made (.document d)
  | part {n x : Node} (h : Made n) (hx : PartOf x n) : Made x
  -- nodes that are made, unless they are refused
  | newAttribute {leading key raw : String} {quote : Quote} {ids ids' : Supply} {a : Attribute}
    (h : (Attribute.new leading key quote raw).run.run ids = (.ok a, ids')) : Made (.attr a)
  | newCharData {leading text : String} {cdata : Bool} {ids ids' : Supply} {d : CharData}
    (h : (CharData.new leading cdata text).run.run ids = (.ok d, ids')) : Made (.charData d)
  | newComment {leading text : String} {ids ids' : Supply} {c : Comment}
    (h : (Comment.new leading text).run.run ids = (.ok c, ids')) : Made (.comment c)
  | newInstruction {leading target content : String} {ids ids' : Supply} {i : Instruction}
    (h : (Instruction.new leading target content).run.run ids = (.ok i, ids')) : Made (.instruction i)
  | newDocType (leading body : String) (ids : Supply) : Made (.docType ((DocType.new leading body).run ids).1)
  | newTag {leading name beforeClose : String} {attributes : List Attribute} {body : Option (List Content × Closing)}
    {ids ids' : Supply} {t : Tag} (ha : ∀ a ∈ attributes, Made (.attr a))
    (hb : ∀ b ∈ body, ∀ c ∈ b.1, Made c.node)
    (h : (Tag.new leading name attributes beforeClose body).run.run ids = (.ok t, ids')) : Made (.tag t)
  | newDeclaration {attributes : List Attribute} (leading beforeClose : String) (ids : Supply)
    (ha : ∀ a ∈ attributes, Made (.attr a)) :
    Made (.declaration ((Declaration.new leading attributes beforeClose).run ids).1)
  | newProlog {declaration : Option Declaration} {misc : List Misc} (ids : Supply)
    (hx : ∀ x ∈ declaration, Made (.declaration x)) (hm : ∀ m ∈ misc, Made m.node) :
    Made (.prolog ((Prolog.new declaration misc).run ids).1)
  | newDocument {path : FilePath} {kind : SourceKind} {p : Prolog} {t : Tag} {ids ids' : Supply} {d : Document}
    (hp : Made (.prolog p)) (ht : Made (.tag t))
    (h : (Document.new path kind p t).run.run ids = (.ok d, ids')) : Made (.document d)
  -- what is in an element
  | value {a : Attribute} (h : Made (.attr a)) (value : String) : Made (.attr (a.withValue value))
  | surroundings {a : Attribute} (h : Made (.attr a)) (markers : List Marker) (beforeEquals afterEquals : String) :
    Made (.attr { a with markers, beforeEquals, afterEquals })
  | text {d d' : CharData} {text : String} (h : Made (.charData d)) (ht : d.withText text = .ok d') :
    Made (.charData d')
  | commentText {c c' : Comment} {text : String} (h : Made (.comment c)) (ht : c.withText text = .ok c') :
    Made (.comment c')
  -- elements
  | front {t : Tag} (h : Made (.tag t)) (leading : String) (markers : List Marker) :
    Made (.tag { t with leading, markers })
  | name {t : Tag} (h : Made (.tag t)) (name : String) : Made (.tag (t.withName name))
  | attributes {t : Tag} {attributes : List Attribute} (h : Made (.tag t))
    (ha : ∀ a ∈ attributes, Made (.attr a)) : Made (.tag { t with attributes })
  | content {t : Tag} {items : List Content} (h : Made (.tag t)) (hi : ∀ c ∈ items, Made c.node) (ids : Supply) :
    Made (.tag ((t.withContent items).run ids).1)
  | tagValue {t : Tag} (h : Made (.tag t)) (value : String) (ids : Supply) :
    Made (.tag ((t.withValue value).run ids).1)
  | attributeValue {t t' : Tag} {key value : String} (h : Made (.tag t))
    (ht : t.withAttributeValue? key value = some t') : Made (.tag t')
  | childValue {t t' : Tag} {name value : String} {ids ids' : Supply} (h : Made (.tag t))
    (ht : (t.withChildValue? name value).run ids = (some t', ids')) : Made (.tag t')
  | withoutChild {t : Tag} (h : Made (.tag t)) (id : NodeId) (ids : Supply) :
    Made (.tag ((t.withoutChild id).run ids).1)
  -- what stands around the root; a walk alone puts another declaration into a prolog
  | declarationAttributes {x : Declaration} {attributes : List Attribute} (h : Made (.declaration x))
    (ha : ∀ a ∈ attributes, Made (.attr a)) : Made (.declaration { x with attributes })
  | declaration {p : Prolog} {x : Declaration} (h : Made (.prolog p)) (hx : Made (.declaration x)) :
    Made (.prolog { p with declaration := some x })
  | misc {p : Prolog} {misc : List Misc} (h : Made (.prolog p)) (hm : ∀ m ∈ misc, Made m.node) :
    Made (.prolog { p with misc })
  | marks {d : Document} (h : Made (.document d)) (markers : List Marker) (bom : Bool) :
    Made (.document { d with markers, bom })
  | prolog {d : Document} {p : Prolog} (h : Made (.document d)) (hp : Made (.prolog p)) :
    Made (.document { d with prolog := p })
  | root {d : Document} {t : Tag} (h : Made (.document d)) (ht : Made (.tag t)) : Made (.document { d with root := t })
  | epilog {d : Document} {epilog : List Misc} (h : Made (.document d)) (hm : ∀ m ∈ epilog, Made m.node) :
    Made (.document { d with epilog })
  | eof {d d' : Document} {eof : String} (h : Made (.document d)) (he : d.withEof eof = .ok d') : Made (.document d')

/-- The node keeps its rules, and so does everything in it. -/
def Node.Lawful : Node → Prop
  | attr a => a.Lawful
  | charData d => d.Lawful
  | comment c => c.Lawful
  | instruction i => i.Lawful
  | docType _ => True
  | tag t => ∀ u ∈ t.elements, u.Lawful
  | declaration x => ∀ a ∈ x.attributes, a.Lawful
  | prolog p => (∀ x ∈ p.declaration, ∀ a ∈ x.attributes, a.Lawful) ∧ ∀ m ∈ p.misc, m.Lawful
  | document d => d.Lawful

theorem Misc.node_lawful {m : Misc} : m.node.Lawful ↔ m.Lawful := by
  cases m <;> rfl

theorem Content.node_lawful {c : Content} : c.node.Lawful ↔ c.LawfulLeaf ∧ ∀ u ∈ c.elements, u.Lawful := by
  cases c <;> simp [Content.node, Node.Lawful, Content.LawfulLeaf, Content.elements]

/-- A closing tag stands behind content, and nowhere else, and repeats the name. -/
def Tag.Closed (t : Tag) : Prop := t.closing.map (·.name) = t.content.map fun _ => t.name

theorem lawfulBody_iff {t : Tag} :
    LawfulBody t.name t.content t.closing ↔ t.Closed ∧ ∀ items ∈ t.content, ∀ c ∈ items, c.LawfulLeaf := by
  unfold Tag.Closed
  cases t.content <;> cases t.closing <;> simp [LawfulBody]

/-- The rules of an element and of what it holds. -/
structure Tag.Kept (t : Tag) : Prop where
  closed : t.Closed
  attributes : ∀ a ∈ t.attributes, a.Lawful
  items : ∀ items ∈ t.content, ∀ c ∈ items, c.node.Lawful

theorem Tag.kept_iff {t : Tag} : t.Kept ↔ (Node.tag t).Lawful := by
  constructor
  · intro h u hu
    obtain rfl | ⟨items, hi, hu⟩ := Tag.mem_elements_iff.1 hu
    · have leaves items (hi : items ∈ u.content) c (hc : c ∈ items) : c.LawfulLeaf :=
        (Content.node_lawful.1 (h.items items hi c hc)).1
      exact ⟨h.attributes, lawfulBody_iff.2 ⟨h.closed, leaves⟩⟩
    · obtain ⟨c, hc, hu⟩ := Content.mem_elementsAll_iff.1 hu
      exact (Content.node_lawful.1 (h.items items hi c hc)).2 u hu
  · intro h
    have self : t.Lawful := h t t.mem_elements_self
    obtain ⟨closed, leaves⟩ := lawfulBody_iff.1 self.body
    refine ⟨closed, self.attributes, fun items hi c hc => Content.node_lawful.2 ⟨leaves items hi c hc, ?_⟩⟩
    intro u hu
    exact h u (Tag.mem_elements_iff.2 (.inr ⟨items, hi, Content.mem_elementsAll_iff.2 ⟨c, hc, hu⟩⟩))

theorem Node.Lawful.part {n x : Node} (h : n.Lawful) (hx : PartOf x n) : x.Lawful := by
  cases hx with
  | attr ha => exact (Tag.kept_iff.2 h).attributes _ ha
  | item hi hc => exact (Tag.kept_iff.2 h).items _ hi _ hc
  | pseudoAttribute ha => exact h _ ha
  | declaration hx => exact h.1 _ hx
  | misc hm => exact Misc.node_lawful.2 (h.2 _ hm)
  | prolog => exact ⟨Document.Lawful.declaration h, Document.Lawful.misc h⟩
  | root => exact Document.Lawful.elements h
  | epilog hm => exact Misc.node_lawful.2 (Document.Lawful.epilog h _ hm)

section Making

variable {α : Type} {ids ids' : Supply}

theorem run_checked_eq_ok {check : Check} {node : Fresh α} {a : α} :
    (checked check node).run.run ids = (.ok a, ids') ↔ check = .ok () ∧ node.run ids = (a, ids') := by
  unfold checked
  cases check with
  | error v =>
    constructor
    · intro h
      cases h
    · rintro ⟨h, -⟩
      cases h
  | ok u =>
    change (Except.ok (node.run ids).1, (node.run ids).2) = (Except.ok a, ids') ↔ _
    rw [Prod.ext_iff, Prod.ext_iff, Except.ok.injEq]
    exact ⟨fun h => ⟨rfl, h⟩, And.right⟩

/-- A node that is made under its own check passes it, if the check does not look at the id. -/
theorem check_of_run_checked {c : Check} {node : Fresh α} {a : α}
    (h : (checked c node).run.run ids = (.ok a, ids')) (check : α → Check) (same : check (node.run ids).1 = c) :
    check a = .ok () := by
  obtain ⟨hc, hr⟩ := run_checked_eq_ok.1 h
  obtain rfl := congrArg Prod.fst hr
  rw [same, hc]

theorem Attribute.lawful_of_new {leading key raw : String} {quote : Quote} {a : Attribute}
    (h : (Attribute.new leading key quote raw).run.run ids = (.ok a, ids')) : a.Lawful :=
  Attribute.check_eq_ok.1 (check_of_run_checked h Attribute.check rfl)

theorem CharData.lawful_of_new {leading text : String} {cdata : Bool} {d : CharData}
    (h : (CharData.new leading cdata text).run.run ids = (.ok d, ids')) : d.Lawful :=
  CharData.check_eq_ok.1 (check_of_run_checked h CharData.check rfl)

theorem Comment.lawful_of_new {leading text : String} {c : Comment}
    (h : (Comment.new leading text).run.run ids = (.ok c, ids')) : c.Lawful :=
  Comment.check_eq_ok.1 (check_of_run_checked h Comment.check rfl)

theorem Instruction.lawful_of_new {leading target content : String} {i : Instruction}
    (h : (Instruction.new leading target content).run.run ids = (.ok i, ids')) : i.Lawful :=
  Instruction.check_eq_ok.1 (check_of_run_checked h Instruction.check rfl)

theorem Tag.kept_of_new {leading name beforeClose : String} {attributes : List Attribute}
    {body : Option (List Content × Closing)} {t : Tag}
    (h : (Tag.new leading name attributes beforeClose body).run.run ids = (.ok t, ids'))
    (ha : ∀ a ∈ attributes, a.Lawful) (hb : ∀ b ∈ body, ∀ c ∈ b.1, c.node.Lawful) : t.Kept := by
  obtain ⟨hc, hr⟩ := run_checked_eq_ok.1 h
  obtain rfl := congrArg Prod.fst hr
  refine ⟨?_, ha, ?_⟩
  · cases body with
    | none => rfl
    | some b => exact congrArg some (bne_eq_false_iff_eq.1 (Violation.when_eq_ok.1 hc))
  · intro items hi
    obtain ⟨b, hm, rfl⟩ := Option.map_eq_some_iff.1 hi
    exact hb b hm

theorem Document.lawful_of_new {path : FilePath} {kind : SourceKind} {p : Prolog} {t : Tag} {d : Document}
    (h : (Document.new path kind p t).run.run ids = (.ok d, ids')) (hp : (Node.prolog p).Lawful)
    (ht : (Node.tag t).Lawful) : d.Lawful := by
  obtain ⟨hc, hr⟩ := run_checked_eq_ok.1 h
  obtain rfl := congrArg Prod.fst hr
  exact {
    kind := Eq.mp (Bool.not_eq_false' _) (Violation.when_eq_ok.1 hc)
    eof := rfl
    declaration := hp.1
    misc := hp.2
    epilog := fun _ hm => absurd hm List.not_mem_nil
    elements := ht }

end Making

theorem Attribute.withValue_lawful (a : Attribute) (value : String) : (a.withValue value).Lawful :=
  (not_mem_escapeAttribute a.quote value).2

theorem CharData.lawful_of_withText {d d' : CharData} {text : String} (h : d.withText text = .ok d') : d'.Lawful := by
  obtain ⟨_, hc, he⟩ := bind_eq_ok.1 h
  cases he
  exact CharData.check_eq_ok.1 hc

theorem Comment.lawful_of_withText {c c' : Comment} {text : String} (h : c.withText text = .ok c') : c'.Lawful := by
  obtain ⟨_, hc, he⟩ := bind_eq_ok.1 h
  cases he
  exact Comment.check_eq_ok.1 hc

namespace Tag

variable {t : Tag}

theorem Closed.paired (h : t.Closed) : t.content.isSome = t.closing.isSome ∧ ∀ c ∈ t.closing, c.name = t.name := by
  unfold Closed at h
  cases hi : t.content <;> cases hc : t.closing <;> simp [hi, hc] at h ⊢
  exact h

theorem Closed.closingOrNew (h : t.Closed) : t.closingOrNew.name = t.name := by
  unfold Tag.closingOrNew
  cases hc : t.closing with
  | none => rfl
  | some c => exact h.paired.2 c hc

theorem Closed.withName (h : t.Closed) (name : String) : (t.withName name).Closed := by
  unfold Closed at h ⊢
  change (t.closing.map fun c => { c with name }).map (·.name) = t.content.map fun _ => name
  cases hi : t.content <;> cases hc : t.closing <;> simp [hi, hc] at h ⊢

theorem Kept.withName (h : t.Kept) (name : String) : (t.withName name).Kept :=
  ⟨h.closed.withName name, h.attributes, h.items⟩

theorem Kept.withContent (h : t.Kept) {items : List Content} (hi : ∀ c ∈ items, c.node.Lawful) (ids : Supply) :
    ((t.withContent items).run ids).1.Kept := by
  obtain ⟨j, hj⟩ := run_withContent t items ids
  rw [hj]
  refine ⟨congrArg some h.closed.closingOrNew, h.attributes, ?_⟩
  intro items' hi'
  cases hi'
  exact hi

theorem Kept.withValue (h : t.Kept) (value : String) (ids : Supply) : ((t.withValue value).run ids).1.Kept := by
  obtain ⟨i, j, hj⟩ := run_withValue t value ids
  rw [hj]
  refine ⟨congrArg some h.closed.closingOrNew, h.attributes, ?_⟩
  intro items hi c hc
  cases hi
  obtain rfl := List.mem_singleton.1 hc
  exact not_mem_escapeText value

theorem lawful_of_withAttributeValue {key value : String} {as as' : List Attribute} (h : ∀ a ∈ as, a.Lawful)
    (hg : withAttributeValue?.go key value as = some as') : ∀ a ∈ as', a.Lawful := by
  induction as generalizing as' with
  | nil => cases hg
  | cons a as ih =>
    obtain ⟨ha, has⟩ := List.forall_mem_cons.1 h
    rw [withAttributeValue?.go] at hg
    split at hg
    · cases hg
      exact List.forall_mem_cons.2 ⟨a.withValue_lawful value, has⟩
    · obtain ⟨rest, hr, rfl⟩ := Option.map_eq_some_iff.1 hg
      exact List.forall_mem_cons.2 ⟨ha, ih has hr⟩

theorem Kept.withAttributeValue? (h : t.Kept) {key value : String} {t' : Tag}
    (ht : t.withAttributeValue? key value = some t') : t'.Kept := by
  obtain ⟨as, ha, rfl⟩ := Option.map_eq_some_iff.1 ht
  refine ⟨h.closed, ?_, h.items⟩
  exact lawful_of_withAttributeValue h.attributes ha

theorem lawful_of_withChildValue {name value : String} {items items' : List Content} {ids ids' : Supply}
    (h : ∀ c ∈ items, c.node.Lawful) (hg : (withChildValue?.go name value items).run ids = (some items', ids')) :
    ∀ c ∈ items', c.node.Lawful := by
  induction items generalizing items' ids' with
  | nil => cases hg
  | cons c cs ih =>
    obtain ⟨hc, hcs⟩ := List.forall_mem_cons.1 h
    -- an item that is left as it is
    have skip (hs : (do return (← withChildValue?.go name value cs).map (c :: ·)).run ids = (some items', ids')) :
        ∀ c ∈ items', c.node.Lawful := by
      obtain ⟨rest, hr, rfl⟩ := Option.map_eq_some_iff.1 (congrArg Prod.fst hs)
      exact List.forall_mem_cons.2 ⟨hc, ih hcs (Prod.ext hr rfl)⟩
    cases c with
    | tag child =>
      rw [withChildValue?.go] at hg
      split at hg
      · obtain rfl := Option.some.inj (congrArg Prod.fst hg)
        exact List.forall_mem_cons.2 ⟨kept_iff.1 ((kept_iff.2 hc).withValue value ids), hcs⟩
      · exact skip hg
    | charData _ | comment _ | instruction _ => exact skip hg

theorem Kept.withChildValue? (h : t.Kept) {name value : String} {t' : Tag} {ids ids' : Supply}
    (ht : (t.withChildValue? name value).run ids = (some t', ids')) : t'.Kept := by
  unfold Tag.withChildValue? at ht
  cases hi : t.content with
  | none =>
    rw [hi] at ht
    cases ht
  | some items =>
    rw [hi] at ht
    dsimp only at ht
    obtain ⟨found, ids₁, hg⟩ : ∃ found ids₁, (withChildValue?.go name value items).run ids = (found, ids₁) :=
      ⟨_, _, rfl⟩
    rw [StateT.run_bind, hg] at ht
    cases found with
    | none => cases ht
    | some items' =>
      obtain rfl := Option.some.inj (congrArg Prod.fst ht)
      exact h.withContent (lawful_of_withChildValue (h.items items hi) hg) ids₁

theorem Kept.withoutChild (h : t.Kept) (id : NodeId) (ids : Supply) : ((t.withoutChild id).run ids).1.Kept := by
  unfold Tag.withoutChild
  cases hi : t.content with
  | none => exact h
  | some items =>
    apply h.withContent
    intro c hc
    exact h.items items hi c (List.mem_filter.1 hc).1

end Tag

theorem Document.lawful_of_withEof {d d' : Document} {eof : String} (h : d.Lawful) (he : d.withEof eof = .ok d') :
    d'.Lawful := by
  obtain ⟨_, hc, hd⟩ := bind_eq_ok.1 he
  cases hd
  exact { h with eof := Eq.mp (Bool.not_eq_false' _) (Violation.when_eq_ok.1 hc) }

theorem Made.lawful {n : Node} (h : Made n) : n.Lawful := by
  induction h with
  | parsed h => exact (Document.check_eq_ok.1 (check_of_parse h)).1
  | part _ hx ih => exact ih.part hx
  | newAttribute h => exact Attribute.lawful_of_new h
  | newCharData h => exact CharData.lawful_of_new h
  | newComment h => exact Comment.lawful_of_new h
  | newInstruction h => exact Instruction.lawful_of_new h
  | newDocType => trivial
  | newTag _ _ h ha hb => exact Tag.kept_iff.1 (Tag.kept_of_new h ha hb)
  | newDeclaration _ _ _ _ ha => exact ha
  | newProlog _ _ _ hx hm => exact ⟨hx, fun m h => Misc.node_lawful.1 (hm m h)⟩
  | newDocument _ _ h hp ht => exact Document.lawful_of_new h hp ht
  | value => exact Attribute.withValue_lawful _ _
  | surroundings _ _ _ _ ih => exact ih
  | text _ ht => exact CharData.lawful_of_withText ht
  | commentText _ ht => exact Comment.lawful_of_withText ht
  | front _ _ _ ih => exact Tag.kept_iff.1 { Tag.kept_iff.2 ih with }
  | name _ name ih => exact Tag.kept_iff.1 ((Tag.kept_iff.2 ih).withName name)
  | attributes _ _ ih ha => exact Tag.kept_iff.1 { Tag.kept_iff.2 ih with attributes := ha }
  | content _ _ ids ih hi => exact Tag.kept_iff.1 ((Tag.kept_iff.2 ih).withContent hi ids)
  | tagValue _ value ids ih => exact Tag.kept_iff.1 ((Tag.kept_iff.2 ih).withValue value ids)
  | attributeValue _ ht ih => exact Tag.kept_iff.1 ((Tag.kept_iff.2 ih).withAttributeValue? ht)
  | childValue _ ht ih => exact Tag.kept_iff.1 ((Tag.kept_iff.2 ih).withChildValue? ht)
  | withoutChild _ id ids ih => exact Tag.kept_iff.1 ((Tag.kept_iff.2 ih).withoutChild id ids)
  | declarationAttributes _ _ _ ha => exact ha
  | declaration _ _ ih hx => exact ⟨fun x h => by cases h; exact hx, ih.2⟩
  | misc _ _ ih hm => exact ⟨ih.1, fun m h => Misc.node_lawful.1 (hm m h)⟩
  | marks _ _ _ ih => exact { (ih : Document.Lawful _) with }
  | prolog _ _ ih hp => exact { (ih : Document.Lawful _) with declaration := hp.1, misc := hp.2 }
  | root _ _ ih ht => exact { (ih : Document.Lawful _) with elements := ht }
  | epilog _ _ ih hm => exact { (ih : Document.Lawful _) with epilog := fun m h => Misc.node_lawful.1 (hm m h) }
  | eof _ he ih => exact Document.lawful_of_withEof ih he

/-- Content that replaces content leaves the closing tag. -/
theorem Made.withItems {t : Tag} {items items' : List Content} (h : Made (.tag t)) (hi : t.content = some items)
    (hm : ∀ c ∈ items', Made c.node) : Made (.tag { t with content := some items' }) := by
  have closed : t.Closed := (Tag.kept_iff.2 h.lawful).closed
  have made := h.content hm {}
  obtain ⟨id, leading, markers, name, attributes, content, closing, beforeClose⟩ := t
  obtain rfl : content = some items := hi
  cases closing with
  | none => cases closed
  | some c => exact made

theorem Made.apply {t t' : Tag} {e : TagEdit} {ids ids' : Supply} (h : Made (.tag t))
    (he : (e.apply t).run ids = (some t', ids')) : Made (.tag t') := by
  have hf := congrArg Prod.fst he
  cases e with
  | setValue value =>
    obtain rfl := Option.some.inj hf
    exact h.tagValue value ids
  | appendValue suffix =>
    obtain rfl := Option.some.inj hf
    exact h.tagValue _ ids
  | rename name =>
    obtain rfl := Option.some.inj hf
    exact h.name name
  | setLeading leading =>
    obtain rfl := Option.some.inj hf
    exact h.front leading t.markers
  | setAttribute key value => exact h.attributeValue hf
  | setChild name value => exact h.childValue he
  | clear =>
    obtain rfl := Option.some.inj hf
    exact h.content (fun _ hc => absurd hc List.not_mem_nil) ids
  | keep =>
    obtain rfl := Option.some.inj hf
    exact h
  | rebuild =>
    obtain rfl := Option.some.inj hf
    have new {u : Tag} {ids'' : Supply}
        (hu : (Tag.new t.leading t.name t.attributes t.beforeClose none).run.run ids = (.ok u, ids'')) :
        Made (.tag u) := .newTag (fun a ha => h.part (.attr ha)) (fun _ hb => by cases hb) hu
    exact new rfl
  | removeChild name =>
    unfold TagEdit.apply at hf
    dsimp only at hf
    split at hf
    · obtain rfl := Option.some.inj hf
      exact h.withoutChild _ ids
    · cases hf
  | removeAttributes =>
    obtain rfl := Option.some.inj hf
    exact h.attributes fun _ ha => absurd ha List.not_mem_nil
  | mark description =>
    obtain rfl := Option.some.inj hf
    exact h.front t.leading _
  | annotate name value =>
    obtain rfl := Option.some.inj hf
    exact h.front t.leading _

def Check.DepthOnly (x : Check) : Prop := x = .ok () ∨ x = .error .nestedTooDeep

theorem Check.DepthOnly.bind {x y : Check} (hx : x.DepthOnly) (hy : y.DepthOnly) : Check.DepthOnly (do x; y) := by
  obtain rfl | rfl := hx
  · exact hy
  · exact .inr rfl

mutual

theorem Tag.depthOnly_checkAt (t : Tag) (depth : Nat) (h : ∀ u ∈ t.elements, u.Lawful) :
    (Tag.checkAt depth t).DepthOnly := by
  have self : t.Lawful := h t t.mem_elements_self
  obtain ⟨id, leading, markers, name, attributes, content, closing, beforeClose⟩ := t
  have own : Tag.checkSelf ⟨id, leading, markers, name, attributes, content, closing, beforeClose⟩ = .ok () :=
    check_bind_eq_ok.2 ⟨self.body.checkBody_eq_ok, checkAttributes_eq_ok.2 self.attributes⟩
  rw [Tag.checkAt.eq_def]
  dsimp only
  rw [own]
  apply Check.DepthOnly.bind
  · unfold Violation.when
    split
    · exact .inr rfl
    · exact .inl rfl
  cases content with
  | none => exact .inl rfl
  | some items =>
    obtain ⟨_, leaves⟩ := lawfulBody_iff.1 self.body
    rw [Tag.elements, List.forall_mem_cons] at h
    apply Check.DepthOnly.bind (.inl (forM_eq_ok.2 fun c hc => Content.checkLeaf_eq_ok.2 (leaves items rfl c hc)))
    exact Content.depthOnly_checkTags items (depth + 1) h.2

theorem Content.depthOnly_checkTags (items : List Content) (depth : Nat)
    (h : ∀ u ∈ Content.elementsAll items, u.Lawful) : (Content.checkTags depth items).DepthOnly := by
  cases items with
  | nil => exact .inl rfl
  | cons c cs =>
    rw [Content.elementsAll, List.forall_mem_append] at h
    have rest := Content.depthOnly_checkTags cs depth h.2
    cases c with
    | tag t => exact rest.bind (Tag.depthOnly_checkAt t depth h.1)
    | charData _ | comment _ | instruction _ => exact rest

end

theorem Document.Lawful.depthOnly_check {d : Document} (h : d.Lawful) : d.check.DepthOnly := by
  have rest : Check.DepthOnly (do
      d.prolog.misc.forM Misc.check
      d.epilog.forM Misc.check
      Tag.checkAt 1 d.root) := by
    apply Check.DepthOnly.bind (.inl (miscs_check_eq_ok.2 h.misc))
    apply Check.DepthOnly.bind (.inl (miscs_check_eq_ok.2 h.epilog))
    exact Tag.depthOnly_checkAt d.root 1 h.elements
  rw [Document.check, h.kind, h.eof]
  apply Check.DepthOnly.bind (.inl rfl)
  apply Check.DepthOnly.bind (.inl rfl)
  cases hx : d.prolog.declaration with
  | none => exact rest
  | some x => exact Check.DepthOnly.bind (.inl (checkAttributes_eq_ok.2 (h.declaration x hx))) rest

theorem Document.Lawful.check_eq {d : Document} (h : d.Lawful) :
    d.check = if d.root.depth ≤ maxDepth then .ok () else .error .nestedTooDeep := by
  split
  next hd => exact Document.check_eq_ok.2 ⟨h, hd⟩
  next hd => exact h.depthOnly_check.resolve_left fun ok => hd (Document.check_eq_ok.1 ok).2

/-- Replaces the value in steps that may be refused: a run of text is made or changed under its check. -/
def Tag.makeValue (t : Tag) (value : String) : Making Tag := do
  let text := escapeText value
  let data ← match t.content with
    | some [.charData d] => if d.cdata then CharData.new "" false text else liftM (d.withText text)
    | _ => CharData.new "" false text
  ExceptT.lift (t.withContent [.charData data])

def Tag.makeChildValue? (t : Tag) (name value : String) : Making (Option Tag) := do
  match t.content with
  | none => return none
  | some items =>
    match ← go items with
    | none => return none
    | some items => return some (← ExceptT.lift (t.withContent items))
where
  go : List Content → Making (Option (List Content))
    | [] => return none
    | .tag child :: cs => do
      if child.name = name then return some (.tag (← child.makeValue value) :: cs)
      else return (← go cs).map (.tag child :: ·)
    | c :: cs => return (← go cs).map (c :: ·)

theorem lift_bind {α β : Type} (x : Fresh α) (f : α → Fresh β) :
    (ExceptT.lift (x >>= f) : Making β) = ExceptT.lift x >>= fun a => ExceptT.lift (f a) := rfl

theorem checked_of_ok {α : Type} {check : Check} (h : check = .ok ()) (node : Fresh α) :
    checked check node = ExceptT.lift node := by
  obtain rfl := h
  rfl

theorem CharData.new_escapeText (value : String) :
    CharData.new "" false (escapeText value) = ExceptT.lift (Tag.withValue.newRun (escapeText value)) := by
  have ok : CharData.check { id := .none, leading := "", cdata := false, text := escapeText value } = .ok () :=
    CharData.check_eq_ok.2 (not_mem_escapeText value)
  exact checked_of_ok ok _

theorem CharData.withText_escapeText {d : CharData} (hd : d.cdata = false) (value : String) :
    d.withText (escapeText value) = .ok { d with text := escapeText value } := by
  have ok : { d with text := escapeText value }.check = .ok () := by
    refine CharData.check_eq_ok.2 ?_
    simp only [CharData.Lawful, hd]
    exact not_mem_escapeText value
  rw [CharData.withText, ok]
  rfl

theorem Tag.makeValue_eq (t : Tag) (value : String) : t.makeValue value = ExceptT.lift (t.withValue value) := by
  unfold Tag.makeValue Tag.withValue
  dsimp only
  rw [CharData.new_escapeText]
  match t.content with
  | some [.charData d] =>
    dsimp only
    split
    next => rfl
    next hc =>
      rw [CharData.withText_escapeText (Bool.eq_false_iff.2 hc)]
      rfl
  | some (c :: _ :: _) => cases c <;> rfl
  | none | some [] | some [.tag _] | some [.comment _] | some [.instruction _] => rfl

theorem makeChildValue_go_eq (name value : String) (items : List Content) :
    Tag.makeChildValue?.go name value items = ExceptT.lift (Tag.withChildValue?.go name value items) := by
  induction items with
  | nil => rfl
  | cons c cs ih =>
    cases c with
    | tag child =>
      rw [Tag.makeChildValue?.go, Tag.withChildValue?.go, Tag.makeValue_eq, ih]
      split
      · rfl
      · rfl
    | charData _ | comment _ | instruction _ =>
      change Tag.makeChildValue?.go name value cs >>= _ = _
      rw [ih]
      rfl

theorem Tag.makeChildValue?_eq (t : Tag) (name value : String) :
    t.makeChildValue? name value = ExceptT.lift (t.withChildValue? name value) := by
  unfold Tag.makeChildValue? Tag.withChildValue?
  cases t.content with
  | none => rfl
  | some items =>
    dsimp only
    rw [makeChildValue_go_eq, lift_bind]
    apply bind_congr
    intro found
    cases found with
    | none => rfl
    | some items => rfl

end Emend.Markup
