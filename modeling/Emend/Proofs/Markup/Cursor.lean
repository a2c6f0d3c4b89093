import Emend.Markup.Traversal
import Emend.Proofs.Outcome

/-! # Walking with a cursor

A walk can share one cursor with all hooks instead of handing a place to each: it adds the name of an element when it
goes in and takes it away again when it comes out, also if something failed inside. Whatever the hooks do, the cursor
then stands where it stood, and the walk comes to what it comes to otherwise (`Hooks.follows_walkDocument`).
-/

namespace Emend.Markup

/-- What a hook does. It may change and read the state, look where it is, and go on with what the walk through its node
came to, even if that failed. -/
inductive Script (σ ε α : Type) where
  | done (result : Except ε (Visit α))
  | step (change : Place → σ → σ) (next : Place → σ → Script σ ε α)
  | walk (next : Except ε (Visit α) → Script σ ε α)

/-- The hooks of a visitor. There is nothing to walk through in a node that holds none. -/
structure Hooks (σ ε : Type) where
  document : Document → Script σ ε Document
  prolog : Prolog → Script σ ε Prolog
  declaration : Declaration → Script σ ε Declaration
  tag : Tag → Script σ ε Tag
  attr : Attribute → Script σ ε Attribute
  charData : CharData → Script σ ε CharData
  comment : Comment → Script σ ε Comment
  instruction : Instruction → Script σ ε Instruction
  docType : DocType → Script σ ε DocType

variable {σ ε α β : Type}

def Script.runAt (place : Place) (inside : ExceptT ε (StateM σ) (Visit α)) :
    Script σ ε α → ExceptT ε (StateM σ) (Visit α)
  | done result => ExceptT.mk (pure result)
  | step change next => do
    modify (change place)
    (next place (← get)).runAt place inside
  | walk next => do
    (next (← ExceptT.lift inside.run)).runAt place inside

def Hooks.visitor (h : Hooks σ ε) : Visitor (ExceptT ε (StateM σ)) where
  document place d walk := (h.document d).runAt place walk
  prolog place p walk := (h.prolog p).runAt place walk
  declaration place x walk := (h.declaration x).runAt place walk
  tag place t walk := (h.tag t).runAt place walk
  attr place a := (h.attr a).runAt place (pure .unchanged)
  charData place d := (h.charData d).runAt place (pure .unchanged)
  comment place c := (h.comment c).runAt place (pure .unchanged)
  instruction place i := (h.instruction i).runAt place (pure .unchanged)
  docType place d := (h.docType d).runAt place (pure .unchanged)

/-- Where a walk is, and the state of the visitor. -/
structure Cursor (σ : Type) where
  place : Place
  state : σ

abbrev Walking (σ ε : Type) := ExceptT ε (StateM (Cursor σ))

namespace Walking

def enter (name : String) : Walking σ ε Unit := modify fun c => { c with place := c.place.enter name }

def leave : Walking σ ε Unit :=
  modify fun c => { c with place := { c.place with ancestors := c.place.ancestors.dropLast } }

def still (x : ExceptT ε (StateM σ) α) : Walking σ ε α :=
  ExceptT.mk fun c => ((x.run.run c.state).1, { c with state := (x.run.run c.state).2 })

/-- Does not fail, and says whether `x` did. -/
def attempt (x : Walking σ ε α) : Walking σ ε (Except ε α) := ExceptT.lift x.run

def unlessFailed (before : Except ε α) (x : Walking σ ε (Visit β)) : Walking σ ε (Except ε (Visit β)) :=
  match before with
  | .ok _ => attempt x
  | .error _ => pure (.ok .unchanged)

def settled (result : Except ε α) : Walking σ ε α := ExceptT.mk (pure result)

end Walking

open Walking

def Script.run (inside : Walking σ ε (Visit α)) : Script σ ε α → Walking σ ε (Visit α)
  | done result => settled result
  | step change next => do
    modify fun c => { c with state := change c.place c.state }
    let c ← get
    (next c.place c.state).run inside
  | walk next => do
    (next (← attempt inside)).run inside

namespace Hooks

variable [Cancellable (ExceptT ε (StateM σ))]

mutual

def walkTag (h : Hooks σ ε) : Tag → Walking σ ε (Visit Tag)
  | ⟨id, leading, markers, name, attributes, content, closing, beforeClose⟩ => do
    still Cancellable.checkpoint
    enter name
    let newAttributes ← attempt (Visit.each (fun a => (h.attr a).run (pure .unchanged)) attributes)
    let newContent ← match content with
      | some items => unlessFailed newAttributes (walkItems h items)
      | none => pure (.ok .unchanged)
    leave
    let newAttributes ← settled newAttributes
    let newContent ← settled newContent
    return if newAttributes.isChanged || newContent.isChanged then
        .changed ⟨id, leading, markers, name, newAttributes.getD attributes,
          (newContent.map some).getD content, closing, beforeClose⟩
      else .unchanged

def walkContent (h : Hooks σ ε) : Content → Walking σ ε (Visit Content)
  | .tag t => return (← (h.tag t).run (walkTag h t)).map .tag
  | .charData d => return (← (h.charData d).run (pure .unchanged)).map .charData
  | .comment c => return (← (h.comment c).run (pure .unchanged)).map .comment
  | .instruction i => return (← (h.instruction i).run (pure .unchanged)).map .instruction

def walkItems (h : Hooks σ ε) : List Content → Walking σ ε (Visit (List Content))
  | [] => return .unchanged
  | c :: cs => do
    let x := (← walkContent h c).settle c
    let xs ← walkItems h cs
    return if x.isChanged || xs.isChanged then .changed (x.getD c :: xs.getD cs) else .unchanged

end

def walkMisc (h : Hooks σ ε) : Misc → Walking σ ε (Visit Misc)
  | .comment c => return (← (h.comment c).run (pure .unchanged)).map .comment
  | .instruction i => return (← (h.instruction i).run (pure .unchanged)).map .instruction
  | .docType d => return (← (h.docType d).run (pure .unchanged)).map .docType

def walkDeclaration (h : Hooks σ ε) (d : Declaration) : Walking σ ε (Visit Declaration) := do
  let attributes ← Visit.each (fun a => (h.attr a).run (pure .unchanged)) d.attributes
  return attributes.map fun attributes => { d with attributes }

def walkProlog (h : Hooks σ ε) (p : Prolog) : Walking σ ε (Visit Prolog) := do
  let declaration ← match p.declaration with
    | some d => pure ((← (h.declaration d).run (h.walkDeclaration d)).settle d)
    | none => pure .unchanged
  let misc ← Visit.each h.walkMisc p.misc
  return if declaration.isChanged || misc.isChanged then
      .changed { p with
        declaration := (declaration.map some).getD p.declaration
        misc := misc.getD p.misc }
    else .unchanged

def walkDocument (h : Hooks σ ε) (d : Document) : Walking σ ε (Visit Document) := do
  still Cancellable.checkpoint
  let prolog := (← (h.prolog d.prolog).run (h.walkProlog d.prolog)).settle d.prolog
  let root := (← (h.tag d.root).run (h.walkTag d.root)).settle d.root
  let epilog ← Visit.each h.walkMisc d.epilog
  return if prolog.isChanged || root.isChanged || epilog.isChanged then
      .changed { d with
        prolog := prolog.getD d.prolog
        root := root.getD d.root
        epilog := epilog.getD d.epilog }
    else .unchanged

def visit (h : Hooks σ ε) (d : Document) : Walking σ ε (Visit Document) :=
  return (← (h.document d).run (h.walkDocument d)).settle d

end Hooks

/-- Whatever comes of it, `x` leaves the cursor where it was, and does to the state what `y` does at that place. -/
def Follows (x : Walking σ ε α) (y : Place → ExceptT ε (StateM σ) α) : Prop :=
  ∀ c : Cursor σ, x.run.run c = (((y c.place).run.run c.state).1, ⟨c.place, ((y c.place).run.run c.state).2⟩)

namespace Follows

variable {x : Walking σ ε α} {y : Place → ExceptT ε (StateM σ) α}

protected theorem pure (a : α) : Follows (pure a : Walking σ ε α) fun _ => pure a := fun _ => rfl

theorem still (x : ExceptT ε (StateM σ) α) : Follows (still x) fun _ => x := fun _ => rfl

theorem settled (result : Except ε α) : Follows (settled result : Walking σ ε α) fun _ => ExceptT.mk (pure result) :=
  fun _ => rfl

theorem bind {f : α → Walking σ ε β} {g : Place → α → ExceptT ε (StateM σ) β} (hx : Follows x y)
    (hf : ∀ a, Follows (f a) fun place => g place a) : Follows (x >>= f) fun place => y place >>= g place := by
  intro c
  have first := hx c
  cases came : (y c.place).run.run c.state with
  | mk result s =>
    rw [came] at first
    cases result with
    | error e => rw [run_bind_of_error first, run_bind_of_error came]
    | ok a => rw [run_bind_of_ok first, run_bind_of_ok came, hf a]

theorem attempt (hx : Follows x y) : Follows (Walking.attempt x) fun place => ExceptT.lift (y place).run := by
  intro c
  change (Except.ok (x.run.run c).1, (x.run.run c).2) = _
  rw [hx c]
  rfl

theorem run_attempt (h : Follows x y) {place : Place} {s s' : σ} {result : Except ε α}
    (came : (y place).run.run s = (result, s')) :
    (Walking.attempt x).run.run ⟨place, s⟩ = (.ok result, ⟨place, s'⟩) := by
  have both := attempt h ⟨place, s⟩
  change _ = (Except.ok ((y place).run.run s).1, Cursor.mk place ((y place).run.run s).2) at both
  rwa [came] at both

theorem script {script : Script σ ε α} {inside : Walking σ ε (Visit α)} {walk : Place → ExceptT ε (StateM σ) (Visit α)}
    (h : Follows inside walk) : Follows (script.run inside) fun place => script.runAt place (walk place) := by
  induction script with
  | done result => exact .settled result
  | step change next ih => exact fun c => ih c.place (change c.place c.state) ⟨c.place, change c.place c.state⟩
  | walk next ih => exact h.attempt.bind ih

theorem each [SameAs α] {f : α → Walking σ ε (Visit α)} {g : Place → α → ExceptT ε (StateM σ) (Visit α)}
    (h : ∀ a, Follows (f a) fun place => g place a) (as : List α) :
    Follows (Visit.each f as) fun place => Visit.each (g place) as := by
  induction as with
  | nil => exact .pure Visit.unchanged
  | cons a as ih => exact (h a).bind fun v => ih.bind fun vs => .pure _

/-- What happens inside an element leaves the cursor inside it, so it stands where it stood when the walk comes out. -/
theorem element {γ : Type} {name : String} {first : Walking σ ε α} {first' : Place → ExceptT ε (StateM σ) α}
    {second : Walking σ ε β} {second' : Place → ExceptT ε (StateM σ) β}
    {next : Except ε α → Walking σ ε (Except ε β)} {last : α → β → γ} (h : Follows first first')
    (h' : Follows second second') (ok : ∀ a, next (.ok a) = Walking.attempt second)
    (error : ∀ e, ∃ result, next (.error e) = pure result) :
    Follows (do
      enter name
      let a ← Walking.attempt first
      let b ← next a
      leave
      let a ← Walking.settled a
      let b ← Walking.settled b
      return last a b) fun place => do
        let a ← first' (place.enter name)
        let b ← second' (place.enter name)
        return last a b := by
  intro c
  have out (s : σ) : (leave : Walking σ ε Unit).run.run ⟨c.place.enter name, s⟩ = (.ok (), ⟨c.place, s⟩) :=
    congrArg (fun ancestors => (Except.ok (), Cursor.mk ⟨c.place.path, c.place.kind, ancestors⟩ s)) List.dropLast_concat
  have enters : (enter name : Walking σ ε Unit).run.run c = (.ok (), ⟨c.place.enter name, c.state⟩) := rfl
  rw [run_bind_of_ok enters]
  -- without a first result the second part is not begun, and the cursor comes out before the error goes on
  cases came : (first' (c.place.enter name)).run.run c.state with
  | mk result s =>
    rw [run_bind_of_ok (h.run_attempt came)]
    cases result with
    | error e =>
      obtain ⟨result, skipped⟩ := error e
      rw [skipped, pure_bind, run_bind_of_ok (out s), run_bind_of_error came]
      rfl
    | ok a =>
      cases came' : (second' (c.place.enter name)).run.run s with
      | mk result s' =>
        rw [ok, run_bind_of_ok (h'.run_attempt came'), run_bind_of_ok (out s'), run_bind_of_ok came]
        cases result with
        | error e =>
          rw [run_bind_of_error came']
          rfl
        | ok b =>
          rw [run_bind_of_ok came']
          rfl

end Follows

namespace Hooks

theorem follows_walkMisc (h : Hooks σ ε) (m : Misc) :
    Follows (h.walkMisc m) fun place => h.visitor.walkMisc place m := by
  cases m with
  | comment c => exact (Follows.script (.pure _)).bind fun v => .pure _
  | instruction i => exact (Follows.script (.pure _)).bind fun v => .pure _
  | docType d => exact (Follows.script (.pure _)).bind fun v => .pure _

theorem follows_each_attr (h : Hooks σ ε) (as : List Attribute) :
    Follows (Visit.each (fun a => (h.attr a).run (pure .unchanged)) as)
      fun place => Visit.each (h.visitor.attr place) as :=
  .each (fun _ => .script (.pure _)) as

theorem follows_walkDeclaration (h : Hooks σ ε) (d : Declaration) :
    Follows (h.walkDeclaration d) fun place => h.visitor.walkDeclaration place d :=
  (h.follows_each_attr d.attributes).bind fun _ => .pure _

theorem follows_walkProlog (h : Hooks σ ε) (p : Prolog) :
    Follows (h.walkProlog p) fun place => h.visitor.walkProlog place p := by
  have rest (declaration : Visit Declaration) : Follows (do
      let misc ← Visit.each h.walkMisc p.misc
      return if declaration.isChanged || misc.isChanged then
          Visit.changed { p with
            declaration := (declaration.map some).getD p.declaration
            misc := misc.getD p.misc }
        else .unchanged) _ :=
    (Follows.each h.follows_walkMisc p.misc).bind fun _ => .pure _
  obtain ⟨id, declaration, misc⟩ := p
  cases declaration with
  | none => exact rest .unchanged
  | some d => exact (Follows.script (h.follows_walkDeclaration d)).bind fun v => rest (v.settle d)

variable [Cancellable (ExceptT ε (StateM σ))]

mutual

theorem follows_walkTag (h : Hooks σ ε) (t : Tag) : Follows (h.walkTag t) fun place => h.visitor.walkTag place t := by
  obtain ⟨id, leading, markers, name, attributes, content, closing, beforeClose⟩ := t
  rw [walkTag]
  unfold Visitor.walkTag
  refine (Follows.still _).bind fun _ => ?_
  cases content with
  | none => exact .element (h.follows_each_attr attributes) (.pure Visit.unchanged) (fun _ => rfl) fun _ => ⟨_, rfl⟩
  | some items =>
    refine .element (h.follows_each_attr attributes) (h.follows_walkItems items) (fun _ => rfl) fun _ => ⟨_, rfl⟩

theorem follows_walkContent (h : Hooks σ ε) (c : Content) :
    Follows (h.walkContent c) fun place => h.visitor.walkContent place c := by
  cases c with
  | tag t =>
    rw [walkContent]
    exact (Follows.script (h.follows_walkTag t)).bind fun v => .pure _
  | charData d => exact (Follows.script (.pure _)).bind fun v => .pure _
  | comment c => exact (Follows.script (.pure _)).bind fun v => .pure _
  | instruction i => exact (Follows.script (.pure _)).bind fun v => .pure _

theorem follows_walkItems (h : Hooks σ ε) (items : List Content) :
    Follows (h.walkItems items) fun place => h.visitor.walkItems place items := by
  cases items with
  | nil => exact .pure Visit.unchanged
  | cons c items => exact (h.follows_walkContent c).bind fun v => (h.follows_walkItems items).bind fun vs => .pure _

end

theorem follows_walkDocument (h : Hooks σ ε) (d : Document) :
    Follows (h.walkDocument d) fun place => h.visitor.walkDocument place d := by
  refine (Follows.still _).bind fun _ => ?_
  refine (Follows.script (h.follows_walkProlog d.prolog)).bind fun _ => ?_
  refine (Follows.script (h.follows_walkTag d.root)).bind fun _ => ?_
  exact (Follows.each h.follows_walkMisc d.epilog).bind fun _ => .pure _

/-- However a walk ends, the cursor is back, and the walk came to what it comes to with places. -/
structure Balanced (h : Hooks σ ε) : Prop where
  misc : ∀ m, Follows (h.walkMisc m) fun place => h.visitor.walkMisc place m
  declaration : ∀ d, Follows (h.walkDeclaration d) fun place => h.visitor.walkDeclaration place d
  prolog : ∀ p, Follows (h.walkProlog p) fun place => h.visitor.walkProlog place p
  tag : ∀ t, Follows (h.walkTag t) fun place => h.visitor.walkTag place t
  content : ∀ c, Follows (h.walkContent c) fun place => h.visitor.walkContent place c
  document : ∀ d, Follows (h.walkDocument d) fun place => h.visitor.walkDocument place d

theorem balanced (h : Hooks σ ε) : h.Balanced where
  misc := h.follows_walkMisc
  declaration := h.follows_walkDeclaration
  prolog := h.follows_walkProlog
  tag := h.follows_walkTag
  content := h.follows_walkContent
  document := h.follows_walkDocument

theorem run_visit (h : Hooks σ ε) (d : Document) (s : σ) :
    (h.visit d).run.run ⟨Visitor.placeOf d, s⟩ =
      (((h.visitor.visit d).run.run s).1, ⟨Visitor.placeOf d, ((h.visitor.visit d).run.run s).2⟩) :=
  ((Follows.script (h.follows_walkDocument d)).bind fun _ => .pure _) ⟨Visitor.placeOf d, s⟩

end Hooks

end Emend.Markup
