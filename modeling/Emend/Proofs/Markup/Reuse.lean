import Emend.Proofs.Markup.Erasure

/-! # Walks reuse what did not change

A walk makes a new node from what the visits of its children came to, and keeps the reference to each child
that came to the same.
-/

namespace Emend.Markup

variable {m : Type → Type} [Monad m] [LawfulMonad m]

section

variable {α β γ : Type} [Erasable α β] [DecidableEq β]

theorem erase_keep {a b : α} : erase (Visit.keep a b) = erase a ↔ SameAs.same b a = true := by
  unfold Visit.keep
  split
  · next h => simp [h]
  · exact same_iff_erase.symm

theorem erase_zipWith_keep {as bs : List α} (h : bs.length = as.length) :
    erase (List.zipWith Visit.keep as bs) = erase as ↔ bs.isEqv as SameAs.same = true := by
  induction as generalizing bs with
  | nil =>
    obtain rfl := List.eq_nil_of_length_eq_zero h
    simp [List.isEqv]
  | cons a as ih =>
    obtain ⟨b, bs, rfl⟩ := List.exists_cons_of_length_eq_add_one h
    rw [List.zipWith_cons_cons, erase_cons, erase_cons, List.cons_eq_cons, erase_keep, ih (Nat.succ.inj h)]
    exact Bool.and_eq_true_iff.symm

theorem ofAll_eq_of {as bs : List α} (h : bs.length = as.length) :
    Visit.ofAll as bs = .of as (List.zipWith Visit.keep as bs) := by
  by_cases hbs : bs.isEqv as SameAs.same = true
  · rw [Visit.ofAll_eq_unchanged.2 hbs, Visit.of_of_same (same_iff_erase.2 ((erase_zipWith_keep h).2 hbs))]
  · rw [Visit.ofAll, if_neg hbs, Visit.of_of_not_same (mt same_iff_erase.1 (mt (erase_zipWith_keep h).1 hbs))]

/-- Visiting a list leaves the kept items. -/
theorem each_bind_congr {f : α → m (Visit α)} {as : List α} {next : Visit (List α) → m γ} {next' : List α → m γ}
    (h : ∀ bs, (Visit.of as bs).getD as = bs → next (.of as bs) = next' bs) :
    Visit.each f as >>= next = as.mapM (Visit.kept f) >>= next' := by
  rw [Visit.each_eq_mapM, Visit.mapM_kept, bind_map_left, bind_map_left]
  apply Visit.mapM_bind_congr
  intro bs hbs
  rw [ofAll_eq_of hbs]
  apply h
  rw [← ofAll_eq_of hbs, Visit.getD_ofAll]

theorem isChanged_of_iff {a b : α} : (Visit.of a b).isChanged = true ↔ erase b ≠ erase a := by
  rw [Visit.isChanged_of, Bool.not_eq_true', ← Bool.not_eq_true, same_iff_erase]

end

namespace Shared.Visitor

variable [Cancellable m]

/-- The walks, with every child of a new node one that was kept. -/
structure Reuses (v : Visitor m) : Prop where
  tag : ∀ place (r : Ref Tag), v.walkTag place r = do
    Cancellable.checkpoint
    let attributes ← r.node.attributes.mapM (Visit.kept (v.attr (place.enter r.node.name)))
    let content ← r.node.content.mapM (List.mapM (Visit.kept (v.walkContent (place.enter r.node.name))))
    return .of r (.fresh { r.node with attributes, content })
  declaration : ∀ place (r : Ref Declaration), v.walkDeclaration place r = do
    let attributes ← r.node.attributes.mapM (Visit.kept (v.attr place))
    return .of r (.fresh { r.node with attributes })
  prolog : ∀ place (r : Ref Prolog), v.walkProlog place r = do
    let declaration ← r.node.declaration.mapM
      (Visit.kept fun d => v.declaration place d (v.walkDeclaration place d))
    let misc ← r.node.misc.mapM (Visit.kept (v.walkMisc place))
    return .of r (.fresh { r.node with declaration, misc })
  document : ∀ place (r : Ref Document), v.walkDocument place r = do
    Cancellable.checkpoint
    let prolog ← Visit.kept (fun p => v.prolog place p (v.walkProlog place p)) r.node.prolog
    let root ← Visit.kept (fun t => v.tag place t (v.walkTag place t)) r.node.root
    let epilog ← r.node.epilog.mapM (Visit.kept (v.walkMisc place))
    return .of r (.fresh { r.node with prolog, root, epilog })

variable (v : Visitor m)

omit [LawfulMonad m] in
theorem walkItems_eq_each (place : Place) (cs : List Content) :
    v.walkItems place cs = Visit.each (v.walkContent place) cs := by
  induction cs with
  | nil => rfl
  | cons c cs ih => rw [walkItems, Visit.each, ih]

theorem reuses : v.Reuses where
  tag place r := by
    obtain ⟨address, ⟨id, leading, markers, name, attributes, content, closing, beforeClose⟩⟩ := r
    rw [walkTag]
    apply bind_congr
    intro _
    apply each_bind_congr
    intro as has
    cases content with
    | none =>
      simp only [pure_bind, Option.mapM_none]
      refine congrArg pure ?_
      rw [has]
      apply Visit.ite_eq_of
      rw [same_iff_erase]
      simp [erase_ref_tag, Ref.fresh, isChanged_of_iff]
    | some items =>
      simp only [Option.mapM_some, bind_map_left, walkItems_eq_each]
      apply each_bind_congr
      intro cs hcs
      refine congrArg pure ?_
      rw [has, Visit.getD_map, hcs]
      apply Visit.ite_eq_of
      rw [same_iff_erase]
      simp [erase_ref_tag, Ref.fresh, isChanged_of_iff, Decidable.not_and_iff_or_not, -not_and]
  declaration place r := by
    rw [walkDeclaration]
    apply each_bind_congr
    intro as has
    refine congrArg pure ?_
    rw [Visit.map_eq_ite _ r.node.attributes, has]
    apply Visit.ite_eq_of
    rw [same_iff_erase]
    simp [erase_ref_declaration, Ref.fresh, isChanged_of_iff]
  prolog place r := by
    obtain ⟨address, ⟨id, declaration, misc⟩⟩ := r
    rw [walkProlog]
    cases declaration with
    | none =>
      simp only [Option.mapM_none, pure_bind]
      apply each_bind_congr
      intro ms hms
      refine congrArg pure ?_
      rw [hms]
      apply Visit.ite_eq_of
      rw [same_iff_erase]
      simp [erase_ref_prolog, Ref.fresh, isChanged_of_iff]
    | some d =>
      simp only [Option.mapM_some, bind_map_left, pure_bind]
      apply Visit.settle_bind_congr fun d => v.declaration place d (v.walkDeclaration place d)
      intro _ d' hsettle hd
      apply each_bind_congr
      intro ms hms
      refine congrArg pure ?_
      rw [hsettle, hms, Visit.getD_map, hd]
      apply Visit.ite_eq_of
      rw [same_iff_erase]
      simp [erase_ref_prolog, Ref.fresh, isChanged_of_iff, Decidable.not_and_iff_or_not, -not_and]
  document place r := by
    rw [walkDocument]
    apply bind_congr
    intro _
    apply Visit.settle_bind_congr fun p => v.prolog place p (v.walkProlog place p)
    intro _ p hprolog hp
    apply Visit.settle_bind_congr fun t => v.tag place t (v.walkTag place t)
    intro _ t hroot ht
    apply each_bind_congr
    intro ms hms
    refine congrArg pure ?_
    rw [hprolog, hroot, hp, ht, hms]
    apply Visit.ite_eq_of
    rw [same_iff_erase]
    simp [erase_ref_document, Ref.fresh, isChanged_of_iff, Decidable.not_and_iff_or_not, or_assoc, -not_and]

end Shared.Visitor
end Emend.Markup
