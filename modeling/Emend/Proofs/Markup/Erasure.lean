import Emend.Proofs.Markup.Shared

/-! # Walks through references erase to walks

If the hooks on references do what the hooks on plain nodes do, up to the places, so does every walk.
-/

namespace Emend.Markup

variable {m : Type → Type} [Monad m] [LawfulMonad m]

section

variable {α β : Type} [Erasable α β]

@[simp] theorem erase_none : erase (none : Option α) = none := rfl

@[simp] theorem erase_some (a : α) : erase (some a) = some (erase a) := rfl

@[simp] theorem erase_cons (a : α) (as : List α) : erase (a :: as) = erase a :: erase as := rfl

theorem map_allocate_erase (v : Visit β) : (v.map (allocate (α := α))).map erase = v := by
  simp only [Visit.map_map, Function.comp_def, erase_allocate, Visit.map_id_fun]

theorem map_erase_allocate (x : m (Visit β)) : Visit.map erase <$> Visit.map (allocate (α := α)) <$> x = x := by
  simp only [Functor.map_map, map_allocate_erase, id_map']

variable [DecidableEq β]

theorem same_iff_erase {a b : α} : SameAs.same a b = true ↔ erase a = erase b := by
  simp [SameAs.same]

instance : ReflSameAs α := ⟨fun _ => same_iff_erase.2 rfl⟩

theorem map_settle (a : α) (v : Visit α) : (v.settle a).map erase = (v.map erase).settle (erase a) := by
  cases v with
  | unchanged => rfl
  | changed b =>
    by_cases h : erase b = erase a
    · simp [Visit.settle, Visit.of, SameAs.same, h]
    · simp [Visit.settle, Visit.of, SameAs.same, h]

theorem erase_each {f : α → m (Visit α)} {g : β → m (Visit β)}
    (h : ∀ a, Visit.map erase <$> f a = g (erase a)) (as : List α) :
    Visit.map erase <$> Visit.each f as = Visit.each g (erase as) := by
  induction as with
  | nil => exact map_pure _ _
  | cons a as ih =>
    simp only [Visit.each, erase_cons, ← h a, ← ih, map_bind, bind_map_left, map_pure, Visit.map_ite, ← map_settle,
      Visit.isChanged_map, Visit.getD_map]

end

namespace Shared

/-- The hooks do the same up to the places. -/
structure Visitor.Erases (s : Visitor m) (v : Markup.Visitor m) : Prop where
  prolog : ∀ place r walk, Visit.map erase <$> s.prolog place r walk =
    v.prolog place (erase r) (Visit.map erase <$> walk)
  declaration : ∀ place r walk, Visit.map erase <$> s.declaration place r walk =
    v.declaration place (erase r) (Visit.map erase <$> walk)
  tag : ∀ place r walk, Visit.map erase <$> s.tag place r walk = v.tag place (erase r) (Visit.map erase <$> walk)
  attr : ∀ place r, Visit.map erase <$> s.attr place r = v.attr place (erase r)
  charData : ∀ place r, Visit.map erase <$> s.charData place r = v.charData place (erase r)
  comment : ∀ place r, Visit.map erase <$> s.comment place r = v.comment place (erase r)
  instruction : ∀ place r, Visit.map erase <$> s.instruction place r = v.instruction place (erase r)
  docType : ∀ place r, Visit.map erase <$> s.docType place r = v.docType place (erase r)

namespace Visitor

variable [Cancellable m] {s : Visitor m} {v : Markup.Visitor m}

mutual

theorem erase_walkTag (h : s.Erases v) (place : Place) :
    (r : Ref Tag) → Visit.map erase <$> s.walkTag place r = v.walkTag place (erase r)
  | ⟨address, ⟨id, leading, markers, name, attributes, content, closing, beforeClose⟩⟩ => by
    have hattr := erase_each (h.attr (place.enter name)) attributes
    cases content with
    | none =>
      simp only [erase_ref_tag, erase_none, Ref.fresh, walkTag, Markup.Visitor.walkTag, ← hattr, map_bind,
        bind_map_left, pure_bind, map_pure, Visit.map_ite, Visit.isChanged_map, Visit.getD_map, Visit.map_unchanged,
        Visit.getD_unchanged]
      rfl
    | some items =>
      have hitems := erase_walkItems h (place.enter name) items
      simp only [erase_ref_tag, erase_some, Ref.fresh, walkTag, Markup.Visitor.walkTag, ← hattr, ← hitems, map_bind,
        bind_map_left, map_pure, Visit.map_ite, Visit.isChanged_map, Visit.getD_map]

theorem erase_walkContent (h : s.Erases v) (place : Place) :
    (c : Content) → Visit.map erase <$> s.walkContent place c = v.walkContent place (erase c)
  | .tag r => by
    have hr := erase_walkTag h place r
    simp only [erase_tag, walkContent, Markup.Visitor.walkContent, ← hr, ← h.tag, bind_pure_comp, Functor.map_map,
      Visit.map_map, Function.comp_def]
  | .charData r => by
    simp only [erase_charData, walkContent, Markup.Visitor.walkContent, ← h.charData, bind_pure_comp, Functor.map_map,
      Visit.map_map, Function.comp_def]
  | .comment r => by
    simp only [erase_comment, walkContent, Markup.Visitor.walkContent, ← h.comment, bind_pure_comp, Functor.map_map,
      Visit.map_map, Function.comp_def]
  | .instruction r => by
    simp only [erase_instruction, walkContent, Markup.Visitor.walkContent, ← h.instruction, bind_pure_comp,
      Functor.map_map, Visit.map_map, Function.comp_def]

theorem erase_walkItems (h : s.Erases v) (place : Place) :
    (cs : List Content) → Visit.map erase <$> s.walkItems place cs = v.walkItems place (erase cs)
  | [] => map_pure _ _
  | c :: cs => by
    have hc := erase_walkContent h place c
    have hcs := erase_walkItems h place cs
    simp only [walkItems, Markup.Visitor.walkItems, erase_cons, ← hc, ← hcs, map_bind, bind_map_left, map_pure,
      Visit.map_ite, ← map_settle, Visit.isChanged_map, Visit.getD_map]

end

omit [Cancellable m] in
theorem erase_walkMisc (h : s.Erases v) (place : Place) (i : Misc) :
    Visit.map erase <$> s.walkMisc place i = v.walkMisc place (erase i) := by
  cases i with
  | comment r =>
    simp only [erase_misc_comment, walkMisc, Markup.Visitor.walkMisc, ← h.comment, bind_pure_comp, Functor.map_map,
      Visit.map_map, Function.comp_def]
  | instruction r =>
    simp only [erase_misc_instruction, walkMisc, Markup.Visitor.walkMisc, ← h.instruction, bind_pure_comp,
      Functor.map_map, Visit.map_map, Function.comp_def]
  | docType r =>
    simp only [erase_misc_docType, walkMisc, Markup.Visitor.walkMisc, ← h.docType, bind_pure_comp, Functor.map_map,
      Visit.map_map, Function.comp_def]

omit [Cancellable m] in
theorem erase_walkDeclaration (h : s.Erases v) (place : Place) (r : Ref Declaration) :
    Visit.map erase <$> s.walkDeclaration place r = v.walkDeclaration place (erase r) := by
  simp only [erase_ref_declaration, Ref.fresh, walkDeclaration, Markup.Visitor.walkDeclaration,
    ← erase_each (h.attr place) r.node.attributes, bind_pure_comp, Functor.map_map, Visit.map_map, Function.comp_def]

omit [Cancellable m] in
theorem erase_walkProlog (h : s.Erases v) (place : Place) (r : Ref Prolog) :
    Visit.map erase <$> s.walkProlog place r = v.walkProlog place (erase r) := by
  obtain ⟨address, ⟨id, declaration, misc⟩⟩ := r
  have hmisc := erase_each (erase_walkMisc h place) misc
  cases declaration with
  | none =>
    simp only [erase_ref_prolog, erase_none, Ref.fresh, walkProlog, Markup.Visitor.walkProlog, ← hmisc, map_bind,
      bind_map_left, pure_bind, map_pure, Visit.map_ite, Visit.isChanged_map, Visit.getD_map,
      Visit.map_unchanged, Visit.getD_unchanged]
    rfl
  | some d =>
    simp only [erase_ref_prolog, erase_some, Ref.fresh, walkProlog, Markup.Visitor.walkProlog, ← hmisc,
      ← erase_walkDeclaration h place d, ← h.declaration, ← map_settle, map_bind,
      bind_map_left, pure_bind, map_pure, Visit.map_ite, Visit.isChanged_map, Visit.getD_map]

theorem erase_walkDocument (h : s.Erases v) (place : Place) (r : Ref Document) :
    Visit.map erase <$> s.walkDocument place r = v.walkDocument place (erase r) := by
  have hepilog := erase_each (erase_walkMisc h place) r.node.epilog
  simp only [erase_ref_document, Ref.fresh, walkDocument, Markup.Visitor.walkDocument, ← hepilog,
    ← erase_walkProlog h place, ← h.prolog, ← erase_walkTag h place, ← h.tag, ← map_settle, map_bind,
    bind_map_left, map_pure, Visit.map_ite, Visit.isChanged_map, Visit.getD_map]

end Visitor
end Shared
end Emend.Markup
