import Emend.Proofs.Markup.Lawful
import Emend.Markup.Query

/-! # Checking without recursion

A document is checked as well with a stack of elements that are still to be looked at: what comes off it is checked,
and the elements inside are put on top. The outcome is the same, down to the violation that is reported
(`Document.sweep_eq`).
-/

namespace Emend.Markup

/-- The elements still to be looked at, with their levels; the one on top is first. -/
abbrev Pending := List (Tag × Nat)

namespace Pending

/-- Passes over items that stand at a level: elements are put on top, the others are checked. -/
def push (level : Nat) (pending : Pending) : List Content → Except Violation Pending
  | [] => .ok pending
  | .tag t :: items => push level ((t, level) :: pending) items
  | .charData d :: items => do
    d.check
    pending.push level items
  | .comment c :: items => do
    c.check
    pending.push level items
  | .instruction i :: items => do
    i.check
    pending.push level items

/-- How many elements there still are, those inside others included. -/
def weight : Pending → Nat
  | [] => 0
  | (t, _) :: pending => t.elements.length + weight pending

/-- The elements among the items in the order in which they come off the stack. -/
def tops (level : Nat) (items : List Content) : Pending := ((items.filterMap Content.tag?).map (·, level)).reverse

theorem tops_tag (level : Nat) (t : Tag) (items : List Content) :
    tops level (.tag t :: items) = tops level items ++ [(t, level)] := by
  simp [tops, Content.tag?]

theorem tops_of_leaf (level : Nat) {c : Content} (leaf : c.tag? = none) (items : List Content) :
    tops level (c :: items) = tops level items := by
  rw [tops, List.filterMap_cons_none leaf, tops]

theorem forM_checkLeaf_cons (c : Content) (items : List Content) :
    (c :: items).forM Content.checkLeaf = (do c.checkLeaf; items.forM Content.checkLeaf) := rfl

/-- Items that pass their checks leave the elements among them on the stack. -/
theorem push_eq (level : Nat) (pending : Pending) (items : List Content) :
    pending.push level items = (do
      items.forM Content.checkLeaf
      return tops level items ++ pending) := by
  induction items generalizing pending with
  | nil => rfl
  | cons c items ih =>
    cases c with
    | tag t =>
      rw [push, ih, tops_tag, List.append_assoc]
      rfl
    | charData _ | comment _ | instruction _ =>
      rw [push, ih, forM_checkLeaf_cons, tops_of_leaf level rfl, bind_assoc]
      rfl

theorem weight_append (ps qs : Pending) : weight (ps ++ qs) = weight ps + weight qs := by
  induction ps with
  | nil => exact (Nat.zero_add _).symm
  | cons p ps ih => rw [List.cons_append, weight, weight, ih, Nat.add_assoc]

theorem weight_tops (level : Nat) (items : List Content) :
    weight (tops level items) = (Content.elementsAll items).length := by
  induction items with
  | nil => rfl
  | cons c items ih =>
    cases c with
    | tag t =>
      rw [tops_tag, weight_append, ih, Content.elementsAll, List.length_append, Nat.add_comm]
      rfl
    | charData _ | comment _ | instruction _ =>
      rw [tops_of_leaf level rfl, ih]
      rfl

theorem push_eq_ok_iff {level : Nat} {pending rest : Pending} {items : List Content} :
    push level pending items = .ok rest ↔
      items.forM Content.checkLeaf = .ok () ∧ tops level items ++ pending = rest := by
  rw [push_eq, bind_eq_ok]
  constructor
  · rintro ⟨_, checked, same⟩
    exact ⟨checked, Except.ok.inj same⟩
  · rintro ⟨checked, rfl⟩
    exact ⟨(), checked, rfl⟩

theorem forM_checkLeaf_of_push_error {level : Nat} {pending : Pending} {items : List Content} {v : Violation}
    (h : push level pending items = .error v) : items.forM Content.checkLeaf = .error v := by
  rw [push_eq] at h
  cases checked : items.forM Content.checkLeaf with
  | ok _ =>
    rw [checked] at h
    cases h
  | error w =>
    rw [checked] at h
    exact congrArg Except.error (Except.error.inj h)

theorem weight_push {t : Tag} {below level : Nat} {pending rest : Pending} (h : push below pending t.items = .ok rest) :
    weight rest < weight ((t, level) :: pending) := by
  obtain ⟨-, rfl⟩ := push_eq_ok_iff.1 h
  have size : t.elements.length = (Content.elementsAll t.items).length + 1 := by
    obtain ⟨_, _, _, _, _, content, _, _⟩ := t
    cases content <;> rfl
  rw [weight_append, weight_tops, weight, size]
  omega

def sweep : Pending → Check
  | [] => .ok ()
  | (t, level) :: pending => do
    Violation.nestedTooDeep.when (maxDepth < level)
    t.checkSelf
    match _h : push (level + 1) pending t.items with
    | .ok rest => sweep rest
    | .error v => .error v
termination_by pending => weight pending
decreasing_by exact weight_push ‹_›

theorem forM_append {α : Type} (check : α → Check) (as bs : List α) :
    (as ++ bs).forM check = (do as.forM check; bs.forM check) := List.forM_append

/-- The elements come off the stack in the order in which they are checked otherwise. -/
theorem forM_tops (level : Nat) (items : List Content) :
    (tops level items).forM (fun x => x.1.checkAt x.2) = Content.checkTags level items := by
  induction items with
  | nil => rfl
  | cons c items ih =>
    cases c with
    | tag t =>
      rw [tops_tag, forM_append, ih, Content.checkTags]
      exact bind_congr fun _ => bind_pure_unit
    | charData _ | comment _ | instruction _ => rw [tops_of_leaf level rfl, ih, Content.checkTags]

theorem checkAt_eq (t : Tag) (level : Nat) :
    t.checkAt level = (do
      Violation.nestedTooDeep.when (maxDepth < level)
      t.checkSelf
      t.items.forM Content.checkLeaf
      Content.checkTags (level + 1) t.items) := by
  obtain ⟨_, _, _, _, _, content, _, _⟩ := t
  rw [Tag.checkAt.eq_def]
  cases content with
  | none =>
    rw [Tag.items, Option.getD_none, Content.checkTags]
    rfl
  | some items => rfl

theorem sweep_eq (pending : Pending) : sweep pending = pending.forM fun x => x.1.checkAt x.2 := by
  induction pending using sweep.induct with
  | case1 =>
    rw [sweep]
    rfl
  | case2 t level pending ih =>
    change _ = (do t.checkAt level; pending.forM fun x => x.1.checkAt x.2)
    rw [sweep, checkAt_eq]
    simp only [bind_assoc]
    refine bind_congr fun _ => bind_congr fun _ => ?_
    split
    next rest pushed =>
      obtain ⟨leaves, rfl⟩ := push_eq_ok_iff.1 pushed
      rw [ih _ pushed, forM_append, forM_tops, leaves]
      rfl
    next v refused =>
      rw [forM_checkLeaf_of_push_error refused]
      rfl

end Pending

def Document.sweep (d : Document) : Check := do
  (Violation.notMarkupKind d.kind).when (!d.kind.isA .xml)
  Violation.eofNotBlank.when (!Text.allBlank d.eof)
  match d.prolog.declaration with
  | some decl => checkAttributes decl.attributes
  | none => pure ()
  (d.prolog.misc ++ d.epilog).forM Misc.check
  Pending.sweep [(d.root, 1)]

theorem Document.sweep_eq (d : Document) : d.sweep = d.check := by
  have rest : (do (d.prolog.misc ++ d.epilog).forM Misc.check; Pending.sweep [(d.root, 1)]) =
      (do d.prolog.misc.forM Misc.check; d.epilog.forM Misc.check; d.root.checkAt 1) := by
    rw [Pending.forM_append, bind_assoc, Pending.sweep_eq]
    exact bind_congr fun _ => bind_congr fun _ => bind_pure_unit
  rw [Document.sweep, Document.check]
  refine bind_congr fun _ => bind_congr fun _ => ?_
  cases d.prolog.declaration with
  | none => exact rest
  | some x => exact bind_congr fun _ => rest

end Emend.Markup
