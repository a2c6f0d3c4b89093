import Emend.Proofs.Markup.Rebuild

/-! # Visitors that change nothing

If every hook comes to the node it got, or to an equal copy of it, no walk finds a change.
-/

namespace Emend

variable {m : Type → Type} [Monad m] [LawfulMonad m] {α β : Type}

/-- The computation comes to `a` whenever it comes to anything. -/
def Yields (a : α) (x : m α) : Prop := x = (fun _ => a) <$> x

namespace Yields

protected theorem pure (a : α) : Yields a (pure a : m α) := by rw [Yields, map_pure]

theorem unit (x : m Unit) : Yields () x := (id_map x).symm

theorem bind {a : α} {b : β} {x : m α} {next : α → m β} (hx : Yields a x) (hnext : Yields b (next a)) :
    Yields b (x >>= next) := by
  have h : x >>= next = x >>= fun _ => next a := by
    rw [hx, bind_map_left, bind_map_left]
  rw [Yields, h, map_bind]
  exact bind_congr fun _ => hnext

theorem map {a : α} {x : m α} (hx : Yields a x) (f : α → β) : Yields (f a) (f <$> x) := by
  rw [← bind_pure_comp]
  exact hx.bind (.pure (f a))

/-- The same for a visit, if what goes on uses the value alone. -/
theorem bind_getD {a : α} {b : β} {x : m (Visit α)} {next : Visit α → m β}
    (hx : Yields a ((fun v => v.getD a) <$> x)) (hn : ∀ v, next v = next (.changed (v.getD a)))
    (hnext : Yields b (next (.changed a))) : Yields b (x >>= next) := by
  have h : x >>= next = (fun v => v.getD a) <$> x >>= fun a => next (.changed a) := by
    rw [bind_map_left]
    exact bind_congr hn
  rw [h]
  exact hx.bind hnext

theorem mapM {f : α → m α} (h : ∀ a, Yields a (f a)) (as : List α) : Yields as (as.mapM f) := by
  induction as with
  | nil => exact .pure []
  | cons a as ih =>
    rw [List.mapM_cons]
    exact (h a).bind (ih.bind (.pure (a :: as)))

end Yields

namespace Markup.Visitor

variable [Cancellable m]

/-- The hooks come to the nodes they get, if the walks do. -/
structure IsIdle (v : Visitor m) : Prop where
  prolog : ∀ place p walk, Yields p ((fun x => x.getD p) <$> walk) →
    Yields p ((fun x => x.getD p) <$> v.prolog place p walk)
  declaration : ∀ place d walk, Yields d ((fun x => x.getD d) <$> walk) →
    Yields d ((fun x => x.getD d) <$> v.declaration place d walk)
  tag : ∀ place t walk, Yields t ((fun x => x.getD t) <$> walk) →
    Yields t ((fun x => x.getD t) <$> v.tag place t walk)
  attr : ∀ place a, Yields a (Visit.result (v.attr place) a)
  charData : ∀ place d, Yields d (Visit.result (v.charData place) d)
  comment : ∀ place c, Yields c (Visit.result (v.comment place) c)
  instruction : ∀ place i, Yields i (Visit.result (v.instruction place) i)
  docType : ∀ place d, Yields d (Visit.result (v.docType place) d)

variable {v : Visitor m}

omit [Cancellable m] in
/-- A hook on the naive traversal comes to the node, if the traversal does. -/
theorem yields_hook {a : α} {hook : m (Visit α) → m (Visit α)} {naive : m α}
    (h : ∀ walk, Yields a ((fun x => x.getD a) <$> walk) → Yields a ((fun x => x.getD a) <$> hook walk))
    (hn : Yields a naive) : Yields a ((fun x => x.getD a) <$> hook (.changed <$> naive)) := by
  apply h
  rw [Functor.map_map]
  exact (id_map naive).symm ▸ hn

mutual

theorem rebuildTag_of_isIdle (hv : v.IsIdle) (place : Place) : (t : Tag) → Yields t (v.rebuildTag place t)
  | ⟨id, leading, markers, name, attributes, content, closing, beforeClose⟩ => by
    rw [rebuildTag]
    apply Yields.bind (.unit _)
    apply Yields.bind (Yields.mapM (hv.attr _) attributes)
    cases content with
    | none =>
      apply Yields.bind (.pure none)
      exact .pure (Tag.mk id leading markers name attributes none closing beforeClose)
    | some items =>
      apply Yields.bind ((rebuildItems_of_isIdle hv _ items).map some)
      exact .pure (Tag.mk id leading markers name attributes (some items) closing beforeClose)

theorem rebuildContent_of_isIdle (hv : v.IsIdle) (place : Place) : (c : Content) → Yields c (v.rebuildContent place c)
  | .tag t => by
    have h := yields_hook (hv.tag place t) (rebuildTag_of_isIdle hv place t)
    rw [rebuildContent]
    exact h.bind_getD (fun _ => rfl) (.pure (Content.tag t))
  | .charData d => (hv.charData place d).map Content.charData
  | .comment c => (hv.comment place c).map Content.comment
  | .instruction i => (hv.instruction place i).map Content.instruction

theorem rebuildItems_of_isIdle (hv : v.IsIdle) (place : Place) :
    (cs : List Content) → Yields cs (v.rebuildItems place cs)
  | [] => .pure []
  | c :: cs => by
    rw [rebuildItems]
    apply Yields.bind (rebuildContent_of_isIdle hv place c)
    apply Yields.bind (rebuildItems_of_isIdle hv place cs)
    exact .pure (c :: cs)

end

omit [Cancellable m] in
theorem rebuildMisc_of_isIdle (hv : v.IsIdle) (place : Place) : (i : Misc) → Yields i (v.rebuildMisc place i)
  | .comment c => (hv.comment place c).map Misc.comment
  | .instruction i => (hv.instruction place i).map Misc.instruction
  | .docType d => (hv.docType place d).map Misc.docType

omit [Cancellable m] in
theorem rebuildDeclaration_of_isIdle (hv : v.IsIdle) (place : Place) (d : Declaration) :
    Yields d (v.rebuildDeclaration place d) := by
  rw [rebuildDeclaration]
  exact (Yields.mapM (hv.attr place) d.attributes).bind (.pure d)

omit [Cancellable m] in
theorem rebuildProlog_of_isIdle (hv : v.IsIdle) (place : Place) (p : Prolog) : Yields p (v.rebuildProlog place p) := by
  obtain ⟨id, declaration, misc⟩ := p
  have hmisc := Yields.mapM (rebuildMisc_of_isIdle hv place) misc
  rw [rebuildProlog]
  cases declaration with
  | none =>
    simp only [pure_bind]
    exact hmisc.bind (.pure (Prolog.mk id none misc))
  | some d =>
    have h := yields_hook (hv.declaration place d) (rebuildDeclaration_of_isIdle hv place d)
    simp only [pure_bind]
    exact h.bind_getD (fun _ => rfl) (hmisc.bind (.pure (Prolog.mk id (some d) misc)))

theorem rebuildDocument_of_isIdle (hv : v.IsIdle) (place : Place) (d : Document) :
    Yields d (v.rebuildDocument place d) := by
  have hp := yields_hook (hv.prolog place d.prolog) (rebuildProlog_of_isIdle hv place d.prolog)
  have ht := yields_hook (hv.tag place d.root) (rebuildTag_of_isIdle hv place d.root)
  rw [rebuildDocument]
  apply Yields.bind (.unit _)
  apply hp.bind_getD fun _ => rfl
  apply ht.bind_getD fun _ => rfl
  exact (Yields.mapM (rebuildMisc_of_isIdle hv place) d.epilog).bind (.pure d)

end Markup.Visitor
end Emend
