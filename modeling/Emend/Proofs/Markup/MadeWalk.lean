import Emend.Proofs.Markup.Made
import Emend.Proofs.Visit
import Emend.SourceVisitor
import Mathlib

/-! # Walks over made nodes

A walk puts together what hooks hand it. If the hooks hand it made nodes, what it comes to is made, whatever they do to
the state and whichever errors they raise.
-/

namespace Emend

open Std.Do

variable {m : Type → Type} [Monad m] {ps : PostShape.{0}} [WPMonad m ps] {α β : Type} {I : Assertion ps}
  {E : ExceptConds ps} {P : α → Prop} {Q : β → Prop}

/-- Wherever `I` holds, the computation comes to a value with `P` and keeps `I`, or it ends as `E` allows. -/
def Keeps (I : Assertion ps) (E : ExceptConds ps) (P : α → Prop) (x : m α) : Prop :=
  Triple x I (fun a => spred(⌜P a⌝ ∧ I), E)

namespace Keeps

protected theorem pure {a : α} (h : P a) : Keeps I E P (pure a : m α) :=
  Triple.pure a (SPred.and_intro (SPred.pure_intro h) .rfl)

theorem bind {x : m α} {f : α → m β} (hx : Keeps I E P x) (hf : ∀ a, P a → Keeps I E Q (f a)) :
    Keeps I E Q (x >>= f) := by
  apply Triple.bind (Q := fun a => spred(⌜P a⌝ ∧ I)) (R := (fun b => spred(⌜Q b⌝ ∧ I), E)) x f hx
  intro a
  exact SPred.pure_elim_l fun ha => hf a ha

theorem map {x : m α} {f : α → β} (hx : Keeps I E P x) (hf : ∀ a, P a → Q (f a)) : Keeps I E Q (f <$> x) := by
  rw [← bind_pure_comp]
  exact hx.bind fun a ha => .pure (hf a ha)

theorem each [DecidableEq α] {f : α → m (Visit α)} {as : List α}
    (h : ∀ a ∈ as, Keeps I E (fun v => P (v.getD a)) (f a)) :
    Keeps I E (fun v => ∀ a ∈ v.getD as, P a) (Visit.each f as) := by
  rw [Visit.each_eq_of_mapM]
  have all : Keeps I E (fun bs => ∀ b ∈ bs, P b) (as.mapM (Visit.result f)) := by
    induction as with
    | nil => exact .pure fun _ hb => absurd hb List.not_mem_nil
    | cons a as ih =>
      obtain ⟨ha, has⟩ := List.forall_mem_cons.1 h
      rw [List.mapM_cons]
      apply (ha.map (f := fun v => v.getD a) fun _ hb => hb).bind
      intro b hb
      apply (ih has).bind
      intro bs hbs
      exact .pure (List.forall_mem_cons.2 ⟨hb, hbs⟩)
  apply all.map
  intro bs hbs
  rwa [Visit.getD_of_eq]

/-- A value that is rebuilt if a part of it changed. -/
theorem rebuilt {a b : α} {changes : Bool} (same : changes = false → b = a) (h : P b) :
    Keeps I E (fun v => P (v.getD a)) (pure (if changes then Visit.changed b else .unchanged) : m (Visit α)) := by
  apply Keeps.pure
  cases changes with
  | true => exact h
  | false => exact same rfl ▸ h

section Runs

variable {σ : Type} {I : Assertion (.arg σ (.except Abort (.arg Session .pure)))}
  {E : ExceptConds (.arg σ (.except Abort (.arg Session .pure)))} {x : StateT σ Visiting α}

theorem of_run {a : α} {st st' : σ} {s s' : Session} (hx : Keeps I E P x) (hi : (I st s).down)
    (hr : (x.run st).run.run s = (.ok (a, st'), s')) : P a ∧ (I st' s').down := by
  have h := hx st s hi
  simp only [wp, PredTrans.apply_pushArg, PredTrans.apply_pushExcept] at h
  rw [hr] at h
  exact h

abbrev anyError (σ : Type) : ExceptConds (.arg σ (.except Abort (.arg Session .pure))) := (fun _ => ⌜True⌝, ())

/-- Where nothing is asked of the state, the values of runs are all that counts. -/
theorem of_forall_run (h : ∀ st s a st' s', (x.run st).run.run s = (.ok (a, st'), s') → P a) :
    Keeps ⌜True⌝ (anyError σ) P x := by
  intro st s _
  simp only [wp, PredTrans.apply_pushArg, PredTrans.apply_pushExcept]
  obtain ⟨r, s', hr⟩ : ∃ r s', (x.run st).run.run s = (r, s') := ⟨_, _, rfl⟩
  rw [hr]
  cases r with
  | error e => exact trivial
  | ok r => exact ⟨h st s r.1 r.2 s' hr, trivial⟩

theorem any (x : StateT σ Visiting α) : Keeps ⌜True⌝ (anyError σ) (fun _ => True) x :=
  of_forall_run fun _ _ _ _ _ _ => trivial

theorem fresh {y : Fresh α} (h : ∀ ids, P (y.run ids).1) :
    Keeps ⌜True⌝ (anyError σ) P (StateT.lift (Visiting.fresh y) : StateT σ Visiting α) := by
  apply of_forall_run
  intro st s a st' s' hr
  cases hr
  exact h s.supply

end Runs

end Keeps

namespace Markup.Visitor

variable [Cancellable m]

/-- The visit of a made node comes to a made node. -/
def Makes (I : Assertion ps) (E : ExceptConds ps) (node : α → Node) (a : α) (x : m (Visit α)) : Prop :=
  Keeps I E (fun v => Made (node (v.getD a))) x

/-- The hooks make made nodes out of made nodes, if the walks they are handed do. -/
structure KeepsMade (v : Visitor m) (I : Assertion ps) (E : ExceptConds ps) : Prop where
  checkpoint : Keeps I E (fun _ => True) (Cancellable.checkpoint : m Unit)
  document : ∀ place d walk, Made (.document d) → Makes I E .document d walk →
    Makes I E .document d (v.document place d walk)
  prolog : ∀ place p walk, Made (.prolog p) → Makes I E .prolog p walk →
    Makes I E .prolog p (v.prolog place p walk)
  declaration : ∀ place x walk, Made (.declaration x) → Makes I E .declaration x walk →
    Makes I E .declaration x (v.declaration place x walk)
  tag : ∀ place t walk, Made (.tag t) → Makes I E .tag t walk → Makes I E .tag t (v.tag place t walk)
  attr : ∀ place a, Made (.attr a) → Makes I E .attr a (v.attr place a)
  charData : ∀ place d, Made (.charData d) → Makes I E .charData d (v.charData place d)
  comment : ∀ place c, Made (.comment c) → Makes I E .comment c (v.comment place c)
  instruction : ∀ place i, Made (.instruction i) → Makes I E .instruction i (v.instruction place i)
  docType : ∀ place d, Made (.docType d) → Makes I E .docType d (v.docType place d)

theorem idle_keepsMade (h : Keeps I E (fun _ => True) (Cancellable.checkpoint : m Unit)) :
    ({} : Visitor m).KeepsMade I E where
  checkpoint := h
  document _ _ _ _ h := h
  prolog _ _ _ _ h := h
  declaration _ _ _ _ h := h
  tag _ _ _ _ h := h
  attr _ _ h := .pure h
  charData _ _ h := .pure h
  comment _ _ h := .pure h
  instruction _ _ h := .pure h
  docType _ _ h := .pure h

omit [Cancellable m] in
theorem Makes.wrap {wrap : α → β} {node : α → Node} {node' : β → Node} {a : α} {x : m (Visit α)}
    (h : Makes I E node a x) (same : ∀ a, node' (wrap a) = node a) :
    Makes I E node' (wrap a) (do return (← x).map wrap) := by
  apply h.bind
  intro y hy
  apply Keeps.pure
  rwa [Visit.getD_map, same]

variable {v : Visitor m}

mutual

theorem makes_walkTag (hv : v.KeepsMade I E) (place : Place) :
    (t : Tag) → Made (.tag t) → Makes I E .tag t (v.walkTag place t)
  | ⟨id, leading, markers, name, attributes, content, closing, beforeClose⟩, ht => by
    rw [walkTag]
    apply hv.checkpoint.bind
    rintro ⟨⟩ -
    apply (Keeps.each (P := fun a => Made (.attr a)) fun a ha => hv.attr _ a (ht.part (.attr ha))).bind
    intro as has
    -- the attributes come first, so the content is put into an element that has the new ones
    have front : Made (.tag ⟨id, leading, markers, name, as.getD attributes, content, closing, beforeClose⟩) :=
      ht.attributes has
    cases content with
    | none =>
      dsimp only
      rw [pure_bind]
      apply Keeps.rebuilt (P := fun t => Made (.tag t)) _ front
      intro hc
      rw [Visit.getD_of_not_changed (Bool.or_eq_false_iff.1 hc).1]
    | some items =>
      dsimp only
      apply (makes_walkItems hv _ items fun c hc => ht.part (.item rfl hc)).bind
      intro cs hcs
      rw [Visit.getD_map]
      apply Keeps.rebuilt (P := fun t => Made (.tag t)) _ (front.withItems rfl hcs)
      intro hc
      obtain ⟨has, hcs⟩ := Bool.or_eq_false_iff.1 hc
      rw [Visit.getD_of_not_changed has, Visit.getD_of_not_changed hcs]

theorem makes_walkContent (hv : v.KeepsMade I E) (place : Place) :
    (c : Content) → Made c.node → Makes I E Content.node c (v.walkContent place c)
  | .tag t, h => Makes.wrap (hv.tag place t _ h (makes_walkTag hv place t h)) fun _ => rfl
  | .charData d, h => Makes.wrap (hv.charData place d h) fun _ => rfl
  | .comment c, h => Makes.wrap (hv.comment place c h) fun _ => rfl
  | .instruction i, h => Makes.wrap (hv.instruction place i h) fun _ => rfl

theorem makes_walkItems (hv : v.KeepsMade I E) (place : Place) :
    (cs : List Content) → (∀ c ∈ cs, Made c.node) →
      Keeps I E (fun v => ∀ c ∈ v.getD cs, Made c.node) (v.walkItems place cs)
  | [], h => by
    rw [walkItems]
    exact .pure h
  | c :: cs, h => by
    obtain ⟨hc, hcs⟩ := List.forall_mem_cons.1 h
    rw [walkItems]
    apply (makes_walkContent hv place c hc).bind
    intro x hx
    apply (makes_walkItems hv place cs hcs).bind
    intro xs hxs
    rw [← Visit.getD_settle] at hx
    apply Keeps.rebuilt (P := fun cs : List Content => ∀ c ∈ cs, Made c.node) _ (List.forall_mem_cons.2 ⟨hx, hxs⟩)
    intro hc
    obtain ⟨hx, hxs⟩ := Bool.or_eq_false_iff.1 hc
    rw [Visit.getD_of_not_changed hx, Visit.getD_of_not_changed hxs]

end

theorem makes_walkMisc (hv : v.KeepsMade I E) (place : Place) :
    (i : Misc) → Made i.node → Makes I E Misc.node i (v.walkMisc place i)
  | .comment c, h => Makes.wrap (hv.comment place c h) fun _ => rfl
  | .instruction i, h => Makes.wrap (hv.instruction place i h) fun _ => rfl
  | .docType d, h => Makes.wrap (hv.docType place d h) fun _ => rfl

theorem makes_eachMisc (hv : v.KeepsMade I E) (place : Place) {is : List Misc} (h : ∀ i ∈ is, Made i.node) :
    Keeps I E (fun v => ∀ i ∈ v.getD is, Made i.node) (Visit.each (v.walkMisc place) is) :=
  Keeps.each (P := fun i => Made (Misc.node i)) fun i hi => makes_walkMisc hv place i (h i hi)

theorem makes_walkDeclaration (hv : v.KeepsMade I E) (place : Place) (d : Declaration) (h : Made (.declaration d)) :
    Makes I E .declaration d (v.walkDeclaration place d) := by
  rw [walkDeclaration]
  apply (Keeps.each (P := fun a => Made (.attr a)) fun a ha => hv.attr place a (h.part (.pseudoAttribute ha))).bind
  intro as has
  apply Keeps.pure
  cases as with
  | unchanged => exact h
  | changed as => exact h.declarationAttributes has

theorem makes_walkProlog (hv : v.KeepsMade I E) (place : Place) (p : Prolog) (h : Made (.prolog p)) :
    Makes I E .prolog p (v.walkProlog place p) := by
  obtain ⟨id, declaration, misc⟩ := p
  have hm := makes_eachMisc hv place fun i hi => h.part (.misc hi)
  rw [walkProlog]
  cases declaration with
  | none =>
    dsimp only
    rw [pure_bind]
    apply hm.bind
    intro is his
    apply Keeps.rebuilt (P := fun p => Made (.prolog p)) _ (h.misc his)
    intro hc
    rw [Visit.getD_of_not_changed (Bool.or_eq_false_iff.1 hc).2]
  | some d =>
    have hd : Made (.declaration d) := h.part (.declaration rfl)
    dsimp only
    apply (hv.declaration place d _ hd (makes_walkDeclaration hv place d hd)).bind
    intro x hx
    rw [pure_bind]
    apply hm.bind
    intro is his
    rw [← Visit.getD_settle] at hx
    rw [Visit.getD_map]
    apply Keeps.rebuilt (P := fun p => Made (.prolog p)) _ ((h.declaration hx).misc his)
    intro hc
    obtain ⟨hx, his⟩ := Bool.or_eq_false_iff.1 hc
    rw [Visit.getD_of_not_changed hx, Visit.getD_of_not_changed his]

theorem makes_walkDocument (hv : v.KeepsMade I E) (place : Place) (d : Document) (h : Made (.document d)) :
    Makes I E .document d (v.walkDocument place d) := by
  have hp : Made (.prolog d.prolog) := h.part .prolog
  have ht : Made (.tag d.root) := h.part .root
  rw [walkDocument]
  apply hv.checkpoint.bind
  rintro ⟨⟩ -
  apply (hv.prolog place d.prolog _ hp (makes_walkProlog hv place d.prolog hp)).bind
  intro p hp
  apply (hv.tag place d.root _ ht (makes_walkTag hv place d.root ht)).bind
  intro t ht
  apply (makes_eachMisc hv place fun i hi => h.part (.epilog hi)).bind
  intro is his
  rw [← Visit.getD_settle] at hp ht
  apply Keeps.rebuilt (P := fun d => Made (.document d)) _ (((h.prolog hp).root ht).epilog his)
  intro hc
  obtain ⟨hc, his⟩ := Bool.or_eq_false_iff.1 hc
  obtain ⟨hp, ht⟩ := Bool.or_eq_false_iff.1 hc
  rw [Visit.getD_of_not_changed hp, Visit.getD_of_not_changed ht, Visit.getD_of_not_changed his]

theorem makes_visit (hv : v.KeepsMade I E) {d : Document} (h : Made (.document d)) :
    Makes I E .document d (v.visit d) := by
  apply (hv.document _ d _ h (makes_walkDocument hv _ d h)).bind
  intro x hx
  apply Keeps.pure
  rwa [Visit.getD_settle]

/-- Documents that come from reading, editing and walking are refused for their depth alone; their elements are closed
under their own names; and no check refuses a value that is set. -/
theorem editing_keeps_rules (hv : v.KeepsMade I E) :
    (∀ d, Made (.document d) → d.check = if d.root.depth ≤ maxDepth then .ok () else .error .nestedTooDeep) ∧
      (∀ t, Made (.tag t) → ∀ u ∈ t.elements,
        u.content.isSome = u.closing.isSome ∧ ∀ c ∈ u.closing, c.name = u.name) ∧
      (∀ t name, Made (.tag t) → ∀ c ∈ (t.withName name).closing, c.name = name) ∧
      (∀ (t : Tag) value, t.makeValue value = ExceptT.lift (t.withValue value)) ∧
      (∀ (t : Tag) name value, t.makeChildValue? name value = ExceptT.lift (t.withChildValue? name value)) ∧
      (∀ (a : Attribute) value, (a.withValue value).check = .ok ()) ∧
      (∀ place t, Made (.tag t) → Makes I E .tag t (v.walkTag place t)) ∧
      (∀ place c, Made c.node → Makes I E Content.node c (v.walkContent place c)) ∧
      (∀ place i, Made i.node → Makes I E Misc.node i (v.walkMisc place i)) ∧
      (∀ place x, Made (.declaration x) → Makes I E .declaration x (v.walkDeclaration place x)) ∧
      (∀ place p, Made (.prolog p) → Makes I E .prolog p (v.walkProlog place p)) ∧
      (∀ place d, Made (.document d) → Makes I E .document d (v.walkDocument place d)) ∧
      (∀ d, Made (.document d) → Makes I E .document d (v.visit d)) := by
  refine ⟨?_, ?_, ?_, Tag.makeValue_eq, Tag.makeChildValue?_eq, ?_, ?_, ?_, ?_, ?_, ?_, ?_, ?_⟩
  · intro d h
    exact Document.Lawful.check_eq h.lawful
  · intro t h u hu
    exact (lawfulBody_iff.1 (h.lawful u hu).body).1.paired
  · intro t name h
    exact (Tag.kept_iff.2 (h.name name).lawful).closed.paired.2
  · intro a value
    exact Attribute.check_eq_ok.2 (a.withValue_lawful value)
  · exact makes_walkTag hv
  · exact makes_walkContent hv
  · exact makes_walkMisc hv
  · exact makes_walkDeclaration hv
  · exact makes_walkProlog hv
  · exact makes_walkDocument hv
  · intro d h
    exact makes_visit hv h

def relabel (name value : String) : Visitor (StateT Unit Visiting) where
  tag _ t walk := return .changed (((← walk).getD t).withName name)
  attr _ a := return .changed (a.withValue value)

theorem relabel_keepsMade (name value : String) : (relabel name value).KeepsMade ⌜True⌝ (Keeps.anyError Unit) :=
  { idle_keepsMade (.any _) with
    tag := fun _ _ _ _ h => h.bind fun _ hx => .pure (hx.name name)
    attr := fun _ _ h => .pure (h.value value) }

/-- `<a x='1'><b>2</b></a>`, with the names and the attribute as given. -/
def labelled (outer inner value : String) : Document where
  id := ⟨1⟩
  path := ⟨"a.xml"⟩
  kind := .xml
  markers := []
  bom := false
  prolog := ⟨⟨2⟩, none, []⟩
  root := ⟨⟨3⟩, "", [], outer, [⟨⟨4⟩, " ", [], "x", "", "", .single, value⟩],
    some [.tag ⟨⟨5⟩, "", [], inner, [], some [.charData ⟨⟨6⟩, "", false, "2"⟩], some ⟨⟨7⟩, "", inner, ""⟩, ""⟩],
    some ⟨⟨8⟩, "", outer, ""⟩, ""⟩
  epilog := []
  eof := ""

theorem editing_keeps_rules_relabel :
    ((Document.parse ⟨"a.xml"⟩ "<a x='1'><b>2</b></a>").run.run {}).1 = .ok (labelled "a" "b" "1") ∧
      ((((relabel "c" "it's").visit (labelled "a" "b" "1")).run ()).run.run {}).1 =
        .ok (.changed (labelled "c" "c" "it&apos;s"), ()) ∧
      (labelled "c" "c" "it&apos;s").check = .ok () := by
  obtain ⟨checks, -, -, -, -, -, -, -, -, -, -, -, visits⟩ := editing_keeps_rules (relabel_keepsMade "c" "it's")
  have read : ((Document.parse ⟨"a.xml"⟩ "<a x='1'><b>2</b></a>").run.run {}).1 = .ok (labelled "a" "b" "1") := by
    decide +kernel
  have visited : ((((relabel "c" "it's").visit (labelled "a" "b" "1")).run ()).run.run {}).1 =
      .ok (.changed (labelled "c" "c" "it&apos;s"), ()) := by
    decide +kernel
  have made : Made (.document (labelled "c" "c" "it&apos;s")) :=
    ((visits _ (.parsed (Prod.ext read rfl))).of_run trivial (Prod.ext visited rfl)).1
  refine ⟨read, visited, ?_⟩
  rw [checks _ made]
  decide +kernel

end Markup.Visitor
end Emend
