import Emend.Markup.Traversal
import Emend.Proofs.Visit

/-! # Rebuilding documents naively

The naive traversal runs the same hooks in the same order and rebuilds every node, so that every hook is
handed a new node by its walk. A walk finds what the naive traversal finds, and calls it a change exactly if
it differs.
-/

namespace Emend.Markup

variable {m : Type → Type} [Monad m]

namespace Visitor

variable [Cancellable m]

mutual

def rebuildTag (v : Visitor m) (place : Place) : Tag → m Tag
  | ⟨id, leading, markers, name, attributes, content, closing, beforeClose⟩ => do
    Cancellable.checkpoint
    let inside := place.enter name
    let newAttributes ← attributes.mapM (Visit.result (v.attr inside))
    let newContent ← match content with
      | some items => some <$> rebuildItems v inside items
      | none => pure none
    return ⟨id, leading, markers, name, newAttributes, newContent, closing, beforeClose⟩

def rebuildContent (v : Visitor m) (place : Place) : Content → m Content
  | .tag t => return .tag ((← v.tag place t (.changed <$> rebuildTag v place t)).getD t)
  | .charData d => .charData <$> Visit.result (v.charData place) d
  | .comment c => .comment <$> Visit.result (v.comment place) c
  | .instruction i => .instruction <$> Visit.result (v.instruction place) i

def rebuildItems (v : Visitor m) (place : Place) : List Content → m (List Content)
  | [] => return []
  | c :: cs => return (← rebuildContent v place c) :: (← rebuildItems v place cs)

end

def rebuildMisc (v : Visitor m) (place : Place) : Misc → m Misc
  | .comment c => .comment <$> Visit.result (v.comment place) c
  | .instruction i => .instruction <$> Visit.result (v.instruction place) i
  | .docType d => .docType <$> Visit.result (v.docType place) d

def rebuildDeclaration (v : Visitor m) (place : Place) (d : Declaration) : m Declaration := do
  return { d with attributes := ← d.attributes.mapM (Visit.result (v.attr place)) }

def rebuildProlog (v : Visitor m) (place : Place) (p : Prolog) : m Prolog := do
  let declaration ← match p.declaration with
    | some d => pure (some ((← v.declaration place d (.changed <$> v.rebuildDeclaration place d)).getD d))
    | none => pure none
  let misc ← p.misc.mapM (v.rebuildMisc place)
  return { p with declaration, misc }

def rebuildDocument (v : Visitor m) (place : Place) (d : Document) : m Document := do
  Cancellable.checkpoint
  let prolog := (← v.prolog place d.prolog (.changed <$> v.rebuildProlog place d.prolog)).getD d.prolog
  let root := (← v.tag place d.root (.changed <$> v.rebuildTag place d.root)).getD d.root
  let epilog ← d.epilog.mapM (v.rebuildMisc place)
  return { d with prolog, root, epilog }

end Visitor

/-- A hook on `a` that cannot tell an unchanged node from an equal new one in what its walk hands it. -/
def Oblivious {α : Type} (a : α) (hook : m (Visit α) → m (Visit α)) : Prop :=
  ∀ walk, (fun x => x.getD a) <$> hook walk =
    (fun x => x.getD a) <$> hook ((fun x => .changed (x.getD a)) <$> walk)

structure Visitor.IsOblivious (v : Visitor m) : Prop where
  document : ∀ place d, Oblivious d (v.document place d)
  prolog : ∀ place p, Oblivious p (v.prolog place p)
  declaration : ∀ place d, Oblivious d (v.declaration place d)
  tag : ∀ place t, Oblivious t (v.tag place t)

/-- Such a hook comes to the same with the walk as with the naive traversal. -/
theorem Oblivious.hook_eq [LawfulMonad m] {α : Type} [DecidableEq α] {a : α}
    {hook : m (Visit α) → m (Visit α)} (h : Oblivious a hook) {walk : m (Visit α)} {naive : m α}
    (hw : walk = Visit.of a <$> naive) :
    (fun x => x.getD a) <$> hook walk = (fun x => x.getD a) <$> hook (.changed <$> naive) := by
  rw [h walk, hw, Functor.map_map]
  simp only [Visit.getD_of_eq]

/-- So does whatever goes on from there with the value alone. -/
theorem Oblivious.bind_eq [LawfulMonad m] {α β : Type} [DecidableEq α] {a : α}
    {hook : m (Visit α) → m (Visit α)} (h : Oblivious a hook) {walk : m (Visit α)} {naive : m α}
    (hw : walk = Visit.of a <$> naive) {next : Visit α → m β}
    (hn : ∀ x, next x = next (.changed (x.getD a))) :
    hook walk >>= next = hook (.changed <$> naive) >>= next := by
  calc
    hook walk >>= next = (fun x => x.getD a) <$> hook walk >>= fun b => next (.changed b) := by
      rw [bind_map_left, funext hn]
      rfl
    _ = (fun x => x.getD a) <$> hook (.changed <$> naive) >>= fun b => next (.changed b) := by
      rw [h.hook_eq hw]
    _ = hook (.changed <$> naive) >>= next := by
      rw [bind_map_left, funext hn]
      rfl

namespace Visitor

variable [LawfulMonad m] [Cancellable m] {v : Visitor m}

mutual

theorem walkTag_eq (hv : v.IsOblivious) (place : Place) :
    (t : Tag) → v.walkTag place t = Visit.of t <$> v.rebuildTag place t
  | ⟨id, leading, markers, name, attributes, content, closing, beforeClose⟩ => by
    cases content with
    | none =>
      have build (as : List Attribute) :
          Visit.of (Tag.mk id leading markers name attributes none closing beforeClose)
            ⟨id, leading, markers, name, as, none, closing, beforeClose⟩ = _ :=
        Visit.of_pair (fun as (_ : Unit) => Tag.mk id leading markers name as none closing beforeClose)
          (b := ()) (y := ()) (by simp)
      simp only [walkTag, rebuildTag, Visit.each_eq_of_mapM, map_bind, bind_map_left, pure_bind, map_pure, build,
        Visit.getD_of_eq, Visit.of_self, Visit.map_unchanged, Visit.getD_unchanged]
      rfl
    | some items =>
      have build (as : List Attribute) (cs : List Content) :=
        Visit.of_pair (fun as cs => Tag.mk id leading markers name as (some cs) closing beforeClose)
          (a := attributes) (x := as) (b := items) (y := cs) (by simp)
      simp only [walkTag, rebuildTag, Visit.each_eq_of_mapM, walkItems_eq hv _ items, map_bind, bind_map_left,
        map_pure, build, Visit.getD_of_eq, Visit.getD_map]

theorem result_walkContent (hv : v.IsOblivious) (place : Place) :
    (c : Content) → Visit.result (v.walkContent place) c = v.rebuildContent place c
  | .tag t => by
    have h := (hv.tag place t).hook_eq (walkTag_eq hv place t)
    simp only [Visit.result, walkContent, rebuildContent, bind_pure_comp, Functor.map_map, Visit.getD_map]
    rw [← Functor.map_map, h, Functor.map_map]
  | .charData d => by
    simp only [Visit.result, walkContent, rebuildContent, bind_pure_comp, Functor.map_map, Visit.getD_map]
  | .comment c => by
    simp only [Visit.result, walkContent, rebuildContent, bind_pure_comp, Functor.map_map, Visit.getD_map]
  | .instruction i => by
    simp only [Visit.result, walkContent, rebuildContent, bind_pure_comp, Functor.map_map, Visit.getD_map]

theorem walkItems_eq (hv : v.IsOblivious) (place : Place) :
    (cs : List Content) → v.walkItems place cs = Visit.of cs <$> v.rebuildItems place cs
  | [] => by simp [walkItems, rebuildItems]
  | c :: cs => by
    have hc := result_walkContent hv place c
    simp only [Visit.result] at hc
    simp only [walkItems, rebuildItems, ← hc, walkItems_eq hv place cs, Visit.settle_eq_of, map_bind, bind_map_left,
      map_pure, Visit.of_pair List.cons List.cons_eq_cons, Visit.getD_of_eq]

end

omit [Cancellable m] in
theorem result_walkMisc (place : Place) (i : Misc) : Visit.result (v.walkMisc place) i = v.rebuildMisc place i := by
  cases i <;>
    simp only [Visit.result, walkMisc, rebuildMisc, bind_pure_comp, Functor.map_map, Visit.getD_map]

omit [Cancellable m] in
theorem each_walkMisc_eq (place : Place) (misc : List Misc) :
    Visit.each (v.walkMisc place) misc = Visit.of misc <$> misc.mapM (v.rebuildMisc place) := by
  rw [Visit.each_eq_of_mapM, funext (result_walkMisc place)]

omit [Cancellable m] in
theorem walkDeclaration_eq (place : Place) (d : Declaration) :
    v.walkDeclaration place d = Visit.of d <$> v.rebuildDeclaration place d := by
  have build (as : List Attribute) :=
    Visit.map_of (fun attributes => { d with attributes }) (a := d.attributes) (b := as) (by simp)
  simp only [walkDeclaration, rebuildDeclaration, Visit.each_eq_of_mapM, bind_pure_comp, Functor.map_map, build]

omit [Cancellable m] in
theorem walkProlog_eq (hv : v.IsOblivious) (place : Place) (p : Prolog) :
    v.walkProlog place p = Visit.of p <$> v.rebuildProlog place p := by
  obtain ⟨id, declaration, misc⟩ := p
  cases declaration with
  | none =>
    have build (ms : List Misc) :
        Visit.of (Prolog.mk id none misc) ⟨id, none, ms⟩ = _ :=
      Visit.of_pair (fun (_ : Unit) ms => Prolog.mk id none ms) (a := ()) (x := ()) (by simp)
    simp only [walkProlog, rebuildProlog, each_walkMisc_eq, pure_bind, bind_pure_comp, Functor.map_map, build,
      Visit.getD_of_eq, Visit.of_self, Visit.map_unchanged, Visit.getD_unchanged]
    rfl
  | some d =>
    have build (d' : Declaration) (ms : List Misc) :=
      Visit.of_pair (fun d ms => Prolog.mk id (some d) ms) (a := d) (x := d') (b := misc) (y := ms) (by simp)
    simp only [walkProlog, rebuildProlog, each_walkMisc_eq, Visit.settle_eq_of, pure_bind, bind_pure_comp,
      map_bind, Functor.map_map, build, Visit.getD_map, Visit.getD_of_eq]
    exact (hv.declaration place d).bind_eq (walkDeclaration_eq place d) fun _ => rfl

theorem walkDocument_eq (hv : v.IsOblivious) (place : Place) (d : Document) :
    v.walkDocument place d = Visit.of d <$> v.rebuildDocument place d := by
  have build (p : Prolog) (t : Tag) (ms : List Misc) :=
    Visit.of_triple (fun prolog root epilog => { d with prolog, root, epilog }) (a := d.prolog) (x := p)
      (b := d.root) (y := t) (c := d.epilog) (z := ms) (by simp)
  simp only [walkDocument, rebuildDocument, each_walkMisc_eq, Visit.settle_eq_of, bind_pure_comp,
      map_bind, Functor.map_map, build, Visit.getD_of_eq]
  apply bind_congr
  intro _
  rw [(hv.prolog place d.prolog).bind_eq (walkProlog_eq hv place d.prolog) fun _ => rfl]
  apply bind_congr
  intro _
  exact (hv.tag place d.root).bind_eq (walkTag_eq hv place d.root) fun _ => rfl

/-- What a visit of a document comes to. -/
theorem visit_eq (hv : v.IsOblivious) (d : Document) :
    v.visit d = Visit.of d <$> Visit.result (fun d => v.document (placeOf d) d
      (.changed <$> v.rebuildDocument (placeOf d) d)) d := by
  have h := (hv.document (placeOf d) d).hook_eq (walkDocument_eq hv (placeOf d) d)
  simp only [visit, Visit.settle_eq_of, bind_pure_comp, Visit.result, Functor.map_map]
  rw [← Functor.map_map, h, Functor.map_map]

/-- A visit that walks through the document. -/
theorem visit_eq_of_walking (hv : v.IsOblivious) {d : Document}
    (walking : ∀ walk, v.document (placeOf d) d walk = walk) :
    v.visit d = Visit.of d <$> v.rebuildDocument (placeOf d) d := by
  rw [visit_eq hv, Visit.result, walking]
  exact congrArg (Visit.of d <$> ·) ((Functor.map_map _ _ _).trans (id_map _))

end Visitor
end Emend.Markup
