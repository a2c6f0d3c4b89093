import Emend.Markup.Validity
import Emend.Proofs.Markup.Elements
import Emend.Proofs.Outcome

/-! # The rules of nodes

Which documents are accepted, said node by node: `Lawful` holds the rules that a node keeps itself, and a
document is checked successfully exactly if all its nodes keep theirs and its elements nest no deeper than
allowed.
-/

namespace Emend.Markup

def Attribute.Lawful (a : Attribute) : Prop := a.quote.char ∉ a.rawValue.toList

def Comment.Lawful (c : Comment) : Prop := Text.occursIn "-->" c.text = false

def Instruction.Lawful (i : Instruction) : Prop := Text.occursIn "?>" i.content = false

def CharData.Lawful (d : CharData) : Prop := if d.cdata then Text.occursIn "]]>" d.text = false else '<' ∉ d.text.toList

def Misc.Lawful : Misc → Prop
  | comment c => c.Lawful
  | instruction i => i.Lawful
  | docType _ => True

def Content.LawfulLeaf : Content → Prop
  | tag _ => True
  | charData d => d.Lawful
  | comment c => c.Lawful
  | instruction i => i.Lawful

def LawfulBody (name : String) : Option (List Content) → Option Closing → Prop
  | none, none => True
  | some items, some closing => closing.name = name ∧ ∀ c ∈ items, c.LawfulLeaf
  | some _, none | none, some _ => False

structure Tag.Lawful (t : Tag) : Prop where
  attributes : ∀ a ∈ t.attributes, a.Lawful
  body : LawfulBody t.name t.content t.closing

structure Document.Lawful (d : Document) : Prop where
  kind : d.kind.isA .xml = true
  eof : Text.allBlank d.eof = true
  declaration : ∀ x ∈ d.prolog.declaration, ∀ a ∈ x.attributes, a.Lawful
  misc : ∀ m ∈ d.prolog.misc, m.Lawful
  epilog : ∀ m ∈ d.epilog, m.Lawful
  elements : ∀ t ∈ d.root.elements, t.Lawful

theorem Violation.when_eq_ok {v : Violation} {bad : Bool} : v.when bad = .ok () ↔ bad = false := by
  cases bad <;> simp [Violation.when]

/-- Two checks, one after the other. -/
theorem check_bind_eq_ok {x y : Check} : (do x; y) = Except.ok () ↔ x = .ok () ∧ y = .ok () := by
  rw [bind_eq_ok]
  constructor
  · rintro ⟨_, hx, hy⟩
    exact ⟨hx, hy⟩
  · rintro ⟨hx, hy⟩
    exact ⟨(), hx, hy⟩

theorem forM_eq_ok {α : Type} {check : α → Check} {as : List α} :
    as.forM check = .ok () ↔ ∀ a ∈ as, check a = .ok () := by
  induction as with
  | nil => simp [pure, Except.pure]
  | cons a as ih =>
    change (do check a; as.forM check) = Except.ok () ↔ _
    rw [check_bind_eq_ok, ih, List.forall_mem_cons]

theorem Attribute.check_eq_ok {a : Attribute} : a.check = .ok () ↔ a.Lawful := by
  rw [Attribute.check, Violation.when_eq_ok, Attribute.Lawful]
  simp

theorem Comment.check_eq_ok {c : Comment} : c.check = .ok () ↔ c.Lawful := Violation.when_eq_ok

theorem Instruction.check_eq_ok {i : Instruction} : i.check = .ok () ↔ i.Lawful := Violation.when_eq_ok

theorem CharData.check_eq_ok {d : CharData} : d.check = .ok () ↔ d.Lawful := by
  rw [CharData.check, CharData.Lawful]
  split
  · exact Violation.when_eq_ok
  · rw [Violation.when_eq_ok]
    simp

theorem Misc.check_eq_ok {m : Misc} : m.check = .ok () ↔ m.Lawful := by
  cases m with
  | comment c => exact Comment.check_eq_ok
  | instruction i => exact Instruction.check_eq_ok
  | docType d => exact ⟨fun _ => trivial, fun _ => rfl⟩

theorem Content.checkLeaf_eq_ok {c : Content} : c.checkLeaf = .ok () ↔ c.LawfulLeaf := by
  cases c with
  | tag t => exact ⟨fun _ => trivial, fun _ => rfl⟩
  | charData d => exact CharData.check_eq_ok
  | comment c => exact Comment.check_eq_ok
  | instruction i => exact Instruction.check_eq_ok

theorem checkAttributes_eq_ok {as : List Attribute} : checkAttributes as = .ok () ↔ ∀ a ∈ as, a.Lawful := by
  rw [checkAttributes, forM_eq_ok]
  exact forall₂_congr fun _ _ => Attribute.check_eq_ok

mutual

/-- An element at a level is accepted if all elements keep their rules and none comes to stand too deep. -/
theorem Tag.checkAt_eq_ok (t : Tag) (depth : Nat) :
    Tag.checkAt depth t = .ok () ↔ (∀ u ∈ t.elements, u.Lawful) ∧ depth + t.depth ≤ maxDepth + 1 := by
  obtain ⟨id, leading, markers, name, attributes, content, closing, beforeClose⟩ := t
  rw [Tag.checkAt.eq_def]
  dsimp only
  rw [check_bind_eq_ok, check_bind_eq_ok, Violation.when_eq_ok, decide_eq_false_iff_not, Nat.not_lt,
    Tag.checkSelf, check_bind_eq_ok, checkAttributes_eq_ok, Tag.elements, List.forall_mem_cons, Tag.depth]
  -- content and closing tag come together; where one of them is missing both sides are false
  cases content with
  | none =>
    rw [Content.elementsBody, Content.depthBody]
    cases closing with
    | none =>
      constructor
      · rintro ⟨hd, ⟨_, ha⟩, _⟩
        exact ⟨⟨⟨ha, trivial⟩, fun _ hu => by cases hu⟩, by omega⟩
      · rintro ⟨⟨ht, _⟩, hd⟩
        exact ⟨by omega, ⟨rfl, ht.attributes⟩, rfl⟩
    | some c =>
      constructor
      · rintro ⟨_, ⟨h, _⟩, _⟩
        cases h
      · rintro ⟨⟨ht, _⟩, _⟩
        exact ht.body.elim
  | some items =>
    rw [Content.elementsBody, Content.depthBody]
    dsimp only
    rw [check_bind_eq_ok, forM_eq_ok]
    cases closing with
    | none =>
      constructor
      · rintro ⟨_, ⟨h, _⟩, _⟩
        cases h
      · rintro ⟨⟨ht, _⟩, _⟩
        exact ht.body.elim
    | some c =>
      have hn : checkBody name (some items) (some c) = .ok () ↔ c.name = name := by
        rw [checkBody, Violation.when_eq_ok, bne_eq_false_iff_eq]
      rw [hn]
      constructor
      · rintro ⟨hd, ⟨hc, ha⟩, hl, ht⟩
        obtain ⟨hu, hd⟩ := (Content.checkTags_eq_ok items (by omega)).1 ht
        exact ⟨⟨⟨ha, hc, fun c hc => Content.checkLeaf_eq_ok.1 (hl c hc)⟩, hu⟩, by omega⟩
      · rintro ⟨⟨⟨ha, hc, hl⟩, hu⟩, hd⟩
        exact ⟨by omega, ⟨hc, ha⟩, fun c hc => Content.checkLeaf_eq_ok.2 (hl c hc),
          (Content.checkTags_eq_ok items (by omega)).2 ⟨hu, by omega⟩⟩

theorem Content.checkTags_eq_ok (items : List Content) {depth : Nat} (hd : depth ≤ maxDepth + 1) :
    Content.checkTags depth items = .ok () ↔
      (∀ u ∈ Content.elementsAll items, u.Lawful) ∧ depth + Content.depthAll items ≤ maxDepth + 1 := by
  cases items with
  | nil =>
    rw [Content.checkTags, Content.elementsAll, Content.depthAll]
    simp [hd]
  | cons c cs =>
    have hcs := Content.checkTags_eq_ok cs hd
    cases c with
    | tag t =>
      rw [Content.checkTags, check_bind_eq_ok, hcs, Tag.checkAt_eq_ok t, Content.elementsAll, Content.depthAll,
        Content.elements, Content.depth, List.forall_mem_append]
      constructor
      · rintro ⟨⟨h₁, h₂⟩, h₃, h₄⟩
        exact ⟨⟨h₃, h₁⟩, by omega⟩
      · rintro ⟨⟨h₁, h₂⟩, h₃⟩
        exact ⟨⟨h₂, by omega⟩, h₁, by omega⟩
    | charData _ | comment _ | instruction _ =>
      rw [Content.checkTags, hcs, Content.elementsAll, Content.depthAll, Content.elements, Content.depth,
        List.nil_append, Nat.zero_max]

end

theorem miscs_check_eq_ok {ms : List Misc} : ms.forM Misc.check = .ok () ↔ ∀ m ∈ ms, m.Lawful := by
  rw [forM_eq_ok]
  exact forall₂_congr fun _ _ => Misc.check_eq_ok

/-- The check of a declaration, if there is one, and the checks behind it. -/
theorem declaration_check_eq_ok {o : Option Declaration} {next : Check} :
    (match o with
      | some decl => do
        checkAttributes decl.attributes
        next
      | none => next) = Except.ok () ↔ (∀ x ∈ o, ∀ a ∈ x.attributes, a.Lawful) ∧ next = .ok () := by
  cases o with
  | none => simp
  | some x =>
    dsimp only
    rw [check_bind_eq_ok, checkAttributes_eq_ok]
    simp

/-- A document is accepted exactly if its nodes keep their rules and its elements do not nest too deep. -/
theorem Document.check_eq_ok {d : Document} : d.check = .ok () ↔ d.Lawful ∧ d.root.depth ≤ maxDepth := by
  rw [Document.check, check_bind_eq_ok, check_bind_eq_ok, Violation.when_eq_ok, Violation.when_eq_ok,
    Bool.not_eq_false', Bool.not_eq_false']
  refine (and_congr_right fun _ => and_congr_right fun _ => declaration_check_eq_ok).trans ?_
  rw [check_bind_eq_ok, check_bind_eq_ok, miscs_check_eq_ok, miscs_check_eq_ok, Tag.checkAt_eq_ok]
  constructor
  · rintro ⟨hk, he, hx, hm, hp, ht, hd⟩
    exact ⟨⟨hk, he, hx, hm, hp, ht⟩, by omega⟩
  · rintro ⟨⟨hk, he, hx, hm, hp, ht⟩, hd⟩
    exact ⟨hk, he, hx, hm, hp, ht, by omega⟩

end Emend.Markup
