import Emend.Archive
import Emend.Proofs.Markup.Outline
import Emend.Proofs.Markup.Pending

/-! # What is accepted could have been made

A document is accepted exactly if each node in it keeps a rule of its own and no element stands too deep, and these
rules are the ones that nodes are made under: every node in the document could be made again from its own fields
(`Document.contract`). So nothing is read from storage that could not have been made.
-/

namespace Emend.Markup

/-- The rule that a node keeps by itself; the nodes in it are not looked at. -/
def Node.Sound : Node → Prop
  | attr a => a.quote.char ∉ a.rawValue.toList
  | charData d => if d.cdata then ¬ "]]>".toList <:+: d.text.toList else '<' ∉ d.text.toList
  | comment c => ¬ "-->".toList <:+: c.text.toList
  | instruction i => ¬ "?>".toList <:+: i.content.toList
  | docType _ | declaration _ | prolog _ => True
  | tag t =>
    t.content = none ∧ t.closing = none ∨
      ∃ items closing, t.content = some items ∧ t.closing = some closing ∧ closing.name = t.name
  | document d => (d.kind = .xml ∨ d.kind = .mavenPom) ∧ ∀ c ∈ d.eof.toList, c ∈ [' ', '\t', '\r', '\n']

/-- An element stands at a level of a tree; the root stands at the first. -/
inductive AtLevel (root : Tag) : Nat → Tag → Prop
  | root : AtLevel root 1 root
  | inside {level : Nat} {t u : Tag} {items : List Content} (h : AtLevel root level t) (hi : items ∈ t.content)
    (hu : .tag u ∈ items) : AtLevel root (level + 1) u

/-- All nodes keep their rules, and no element stands too deep. -/
structure Document.Valid (d : Document) : Prop where
  nodes : ∀ n : Node, n.Within (.document d) → n.Sound
  levels : ∀ level t, AtLevel d.root level t → level ≤ maxDepth

/-- Whatever the ids, a node is made and not refused, and it is this one with an id of its own. -/
def Making.Gives {α : Type} (make : Making α) (node : NodeId → α) : Prop :=
  ∀ ids, ∃ id ids', make.run.run ids = (.ok (node id), ids')

/-- A node can be made again from its own fields; what making leaves empty is filled in afterwards. -/
def Node.Remakes : Node → Prop
  | attr a =>
    (Attribute.new a.leading a.key a.quote a.rawValue).Gives fun id =>
      { a with id, markers := [], beforeEquals := "", afterEquals := "" }
  | charData d => (CharData.new d.leading d.cdata d.text).Gives fun id => { d with id }
  | comment c => (Comment.new c.leading c.text).Gives fun id => { c with id }
  | instruction i => (Instruction.new i.leading i.target i.content).Gives fun id => { i with id }
  | docType d => Making.Gives (ExceptT.lift (DocType.new d.leading d.body)) fun id => { d with id }
  | tag t =>
    ∃ body, (Tag.new t.leading t.name t.attributes t.beforeClose body).Gives fun id => { t with id, markers := [] }
  | declaration x =>
    Making.Gives (ExceptT.lift (Declaration.new x.leading x.attributes x.beforeClose)) fun id => { x with id }
  | prolog p => Making.Gives (ExceptT.lift (Prolog.new p.declaration p.misc)) fun id => { p with id }
  | document d =>
    Making.Gives (do
      let made ← Document.new d.path d.kind d.prolog d.root
      liftM ({ made with epilog := d.epilog }.withEof d.eof)) fun id => { d with id, markers := [], bom := false }

theorem AtLevel.le_depth {root t : Tag} {level : Nat} (h : AtLevel root level t) :
    level + t.depth ≤ root.depth + 1 := by
  induction h with
  | root => omega
  | @inside level t u items _ hi hu ih =>
    have below : u.depth < t.depth := by
      obtain ⟨_, _, _, _, _, content, _, _⟩ := t
      obtain rfl : content = some items := hi
      rw [Tag.depth, Content.depthBody]
      exact Nat.lt_succ_of_le (Content.elementsAll_subset items
        (Content.mem_elementsAll_iff.2 ⟨.tag u, hu, u.mem_elements_self⟩)).2
    omega

mutual

/-- Some element stands at the last level that there is. -/
theorem Tag.exists_deepest {root : Tag} {level : Nat} (t : Tag) (h : AtLevel root (level + 1) t) :
    ∃ u, AtLevel root (level + t.depth) u := by
  obtain ⟨id, leading, markers, name, attributes, content, closing, beforeClose⟩ := t
  cases content with
  | none => exact ⟨_, h⟩
  | some items =>
    rw [Tag.depth, Content.depthBody]
    obtain none | ⟨u, deepest⟩ := Content.exists_deepest items fun u hu => h.inside rfl hu
    · rw [none]
      exact ⟨_, h⟩
    · exact ⟨u, by rwa [Nat.add_comm _ 1, ← Nat.add_assoc]⟩

theorem Content.exists_deepest {root : Tag} {level : Nat} (items : List Content)
    (h : ∀ u, .tag u ∈ items → AtLevel root (level + 1) u) :
    Content.depthAll items = 0 ∨ ∃ u, AtLevel root (level + Content.depthAll items) u := by
  cases items with
  | nil => exact .inl rfl
  | cons c items =>
    have rest := Content.exists_deepest items fun u hu => h u (List.mem_cons_of_mem _ hu)
    rw [Content.depthAll]
    cases c with
    | tag t =>
      right
      obtain ⟨u, first⟩ := Tag.exists_deepest t (h t List.mem_cons_self)
      rw [Content.depth]
      rcases Nat.le_total (Content.depthAll items) t.depth with le | le
      · exact ⟨u, by rwa [Nat.max_eq_left le]⟩
      · have := t.depth_pos
        rw [Nat.max_eq_right le]
        exact rest.resolve_left (by omega)
    | charData _ | comment _ | instruction _ =>
      rw [Content.depth, Nat.zero_max]
      exact rest

end

theorem levels_le_iff {root : Tag} {bound : Nat} :
    (∀ level t, AtLevel root level t → level ≤ bound) ↔ root.depth ≤ bound := by
  constructor
  · intro h
    have first : AtLevel root (0 + 1) root := .root
    obtain ⟨u, deepest⟩ := Tag.exists_deepest root first
    rw [Nat.zero_add] at deepest
    exact h _ u deepest
  · intro h level t at_level
    have := at_level.le_depth
    have := t.depth_pos
    omega

theorem Misc.lawful_of_sound {m : Misc} (h : m.node.Sound) : m.Lawful := by
  cases m with
  | comment c => exact Text.occursIn_eq_false_iff.2 h
  | instruction i => exact Text.occursIn_eq_false_iff.2 h
  | docType d => trivial

theorem CharData.lawful_iff {d : CharData} : d.Lawful ↔ (Node.charData d).Sound := by
  rw [CharData.Lawful, Node.Sound]
  split
  · exact Text.occursIn_eq_false_iff
  · rfl

theorem Content.lawfulLeaf_of_sound {c : Content} (h : c.node.Sound) : c.LawfulLeaf := by
  cases c with
  | tag t => trivial
  | charData d => exact CharData.lawful_iff.2 h
  | comment c => exact Text.occursIn_eq_false_iff.2 h
  | instruction i => exact Text.occursIn_eq_false_iff.2 h

theorem Tag.closed_iff {t : Tag} : t.Closed ↔ (Node.tag t).Sound := by
  obtain ⟨_, _, _, _, _, content, closing, _⟩ := t
  cases content <;> cases closing <;> simp [Tag.Closed, Node.Sound]

theorem Document.frame_iff {d : Document} :
    d.kind.isA .xml = true ∧ Text.allBlank d.eof = true ↔ (Node.document d).Sound := by
  refine and_congr ?_ ?_
  · cases d.kind <;> decide
  · rw [Text.allBlank_iff]
    exact forall₂_congr fun c _ => by simp [Text.isBlank, or_assoc]

theorem Node.Lawful.sound {n : Node} (h : n.Lawful) : n.Sound := by
  cases n with
  | attr a => exact h
  | charData d => exact CharData.lawful_iff.1 h
  | comment c => exact Text.occursIn_eq_false_iff.1 h
  | instruction i => exact Text.occursIn_eq_false_iff.1 h
  | docType _ | declaration _ | prolog _ => trivial
  | tag t => exact Tag.closed_iff.1 (Tag.kept_iff.2 h).closed
  | document d => exact Document.frame_iff.1 ⟨Document.Lawful.kind h, Document.Lawful.eof h⟩

theorem Node.Lawful.within {n x : Node} (h : n.Lawful) (hx : x.Within n) : x.Lawful := by
  induction hx using Relation.ReflTransGen.head_induction_on with
  | refl => exact h
  | head part _ ih => exact ih.part part

/-- A tree of nodes that keep their rules is lawful: everything its elements hold stands within it. -/
theorem Tag.lawful_of_sound {t : Tag} (h : ∀ n : Node, n.Within (.tag t) → n.Sound) : t.Lawful where
  attributes a ha := h (.attr a) (.single (.attr ha))
  body := lawfulBody_iff.2 ⟨Tag.closed_iff.2 (h _ .refl),
    fun _ hi c hc => Content.lawfulLeaf_of_sound (h c.node (.single (.item hi hc)))⟩

mutual

theorem Tag.within_of_mem {u : Tag} (t : Tag) (h : u ∈ t.elements) : (Node.tag u).Within (.tag t) := by
  obtain ⟨_, _, _, _, _, content, _, _⟩ := t
  rw [Tag.elements, List.mem_cons] at h
  obtain rfl | h := h
  · exact .refl
  · cases content with
    | none => cases h
    | some items =>
      obtain ⟨c, hc, inside⟩ := Content.within_of_mem items h
      exact inside.tail (.item rfl hc)

theorem Content.within_of_mem {u : Tag} (items : List Content) (h : u ∈ Content.elementsAll items) :
    ∃ c ∈ items, (Node.tag u).Within c.node := by
  cases items with
  | nil => cases h
  | cons c items =>
    rw [Content.elementsAll, List.mem_append] at h
    obtain h | h := h
    · cases c with
      | tag t => exact ⟨.tag t, List.mem_cons_self, Tag.within_of_mem t h⟩
      | charData _ | comment _ | instruction _ => cases h
    · obtain ⟨c, hc, inside⟩ := Content.within_of_mem items h
      exact ⟨c, List.mem_cons_of_mem _ hc, inside⟩

end

theorem Document.lawful_iff {d : Document} : d.Lawful ↔ ∀ n : Node, n.Within (.document d) → n.Sound := by
  constructor
  · intro h n hn
    exact ((show (Node.document d).Lawful from h).within hn).sound
  · intro h
    obtain ⟨kind, eof⟩ := Document.frame_iff.2 (h _ .refl)
    have prolog {n : Node} (hn : PartOf n (.prolog d.prolog)) : n.Within (.document d) := .head hn (.single .prolog)
    exact {
      kind
      eof
      declaration := fun x hx a ha => h (.attr a) (.head (.pseudoAttribute ha) (prolog (.declaration hx)))
      misc := fun m hm => Misc.lawful_of_sound (h m.node (prolog (.misc hm)))
      epilog := fun m hm => Misc.lawful_of_sound (h m.node (.single (.epilog hm)))
      elements := fun t ht => Tag.lawful_of_sound fun n hn =>
        h n (hn.trans ((Tag.within_of_mem d.root ht).tail .root)) }

theorem Document.check_eq_ok_iff_valid {d : Document} : d.check = .ok () ↔ d.Valid := by
  rw [Document.check_eq_ok, Document.lawful_iff, ← levels_le_iff]
  exact ⟨fun h => ⟨h.1, h.2⟩, fun h => ⟨h.1, h.2⟩⟩

/-- Making under a check gives a node exactly if the check passes. -/
theorem gives_checked_iff {α : Type} {check : Check} {node : NodeId → α} :
    (checked check (node <$> NodeId.fresh)).Gives node ↔ check = .ok () := by
  constructor
  · intro h
    obtain ⟨id, ids', made⟩ := h {}
    exact (run_checked_eq_ok.1 made).1
  · intro h ids
    exact ⟨_, _, run_checked_eq_ok.2 ⟨h, rfl⟩⟩

/-- The same if what was made is filled in under another check. -/
theorem gives_filled_iff {α : Type} {check check' : Check} {node : NodeId → α} {fill : α → α} :
    Making.Gives (do
      let made ← checked check (node <$> NodeId.fresh)
      liftM (do check'; return fill made : Except Violation α)) (fun id => fill (node id)) ↔
      check = .ok () ∧ check' = .ok () := by
  constructor
  · intro h
    obtain ⟨id, ids', made⟩ := h {}
    cases check with
    | error v => cases made
    | ok _ =>
      cases check' with
      | error v => cases made
      | ok _ => exact ⟨rfl, rfl⟩
  · rintro ⟨rfl, rfl⟩ ids
    exact ⟨_, _, rfl⟩

theorem Tag.remakes_iff {t : Tag} : (Node.tag t).Remakes ↔ (Node.tag t).Sound := by
  obtain ⟨id, leading, markers, name, attributes, content, closing, beforeClose⟩ := t
  constructor
  · rintro ⟨body, gives⟩
    obtain ⟨id', ids', made⟩ := gives {}
    obtain ⟨passed, run⟩ := run_checked_eq_ok.1 made
    -- content and closing are those of the body that was given
    have same := congrArg Prod.fst run
    obtain rfl : body.map (·.1) = content := congrArg Tag.content same
    obtain rfl : body.map (·.2) = closing := congrArg Tag.closing same
    cases body with
    | none => exact .inl ⟨rfl, rfl⟩
    | some body => exact .inr ⟨body.1, body.2, rfl, rfl, bne_eq_false_iff_eq.1 (Violation.when_eq_ok.1 passed)⟩
  · rintro (⟨rfl, rfl⟩ | ⟨items, closing, rfl, rfl, repeats⟩)
    · exact ⟨none, gives_checked_iff.2 rfl⟩
    · exact ⟨some (items, closing), gives_checked_iff.2 (Violation.when_eq_ok.2 (bne_eq_false_iff_eq.2 repeats))⟩

theorem Document.remakes_iff {d : Document} : (Node.document d).Remakes ↔ (Node.document d).Sound := by
  rw [← Document.frame_iff, ← Bool.not_eq_false', ← Bool.not_eq_false' (Text.allBlank d.eof),
    ← Violation.when_eq_ok (v := .notMarkupKind d.kind), ← Violation.when_eq_ok (v := .eofNotBlank)]
  exact gives_filled_iff

theorem Node.remakes_iff {n : Node} : n.Remakes ↔ n.Sound := by
  cases n with
  | attr a => exact gives_checked_iff.trans Attribute.check_eq_ok
  | charData d => exact gives_checked_iff.trans (CharData.check_eq_ok.trans CharData.lawful_iff)
  | comment c => exact gives_checked_iff.trans (Comment.check_eq_ok.trans Text.occursIn_eq_false_iff)
  | instruction i => exact gives_checked_iff.trans (Instruction.check_eq_ok.trans Text.occursIn_eq_false_iff)
  | docType _ | declaration _ | prolog _ => exact iff_of_true (fun _ => ⟨_, _, rfl⟩) trivial
  | tag t => exact Tag.remakes_iff
  | document d => exact Document.remakes_iff

theorem check_of_ofJson {j : Json} {d : Document} (h : Archive.ofJson j = .ok (.markup d)) : d.check = .ok () := by
  obtain ⟨⟨format, version⟩, _, h⟩ := bind_eq_ok.1 h
  dsimp only at h
  split at h
  · cases h
  split at h
  · cases h
  obtain ⟨source, _, h⟩ := bind_eq_ok.1 h
  cases source with
  | text t => cases h
  | markup d' =>
    obtain ⟨_, checked, h⟩ := bind_eq_ok.1 h
    cases h
    exact mapError_eq_ok.1 checked

theorem check_of_read {bytes : ByteArray} {d : Document} (h : Archive.read bytes = .ok (.markup d)) :
    d.check = .ok () := by
  unfold Archive.read at h
  split at h
  · cases h
  · split at h
    · cases h
    · exact check_of_ofJson (mapError_eq_ok.1 h)

/-- What it means that a document is accepted. -/
structure Document.Contract (d : Document) : Prop where
  stack : d.sweep = d.check
  accepted : d.sweep = .ok () ↔ d.Valid
  made : d.Valid ↔
    (∀ n : Node, n.Within (.document d) → n.Remakes) ∧ ∀ level t, AtLevel d.root level t → level ≤ maxDepth
  read : ∀ bytes, Archive.read bytes = .ok (.markup d) → d.Valid

theorem Document.contract (d : Document) : d.Contract where
  stack := d.sweep_eq
  accepted := by rw [d.sweep_eq, Document.check_eq_ok_iff_valid]
  made := by
    refine Iff.trans ⟨fun h => ⟨h.nodes, h.levels⟩, fun h => ⟨h.1, h.2⟩⟩ (and_congr_left' ?_)
    exact forall₂_congr fun _ _ => Node.remakes_iff.symm
  read _ h := Document.check_eq_ok_iff_valid.1 (check_of_read h)

end Emend.Markup
