import Emend.Proofs.Markup.Rebuild

/-! # Overrides

An override of a hook does its own work and may then delegate to the walk, with more work after it on the
node that the walk came to.
-/

namespace Emend.Markup

variable {m : Type → Type}

/-- How an override goes on: with an outcome, or with the walk. What comes after the walk gets the node as it
is then, and hands on what the walk came to unless it has an outcome of its own. -/
inductive Reply (m : Type → Type) (α : Type) where
  | finish (outcome : Visit α)
  | walk (after : α → m (Option (Visit α)))

def Override (m : Type → Type) (α : Type) : Type := Place → α → m (Reply m α)

variable [Monad m] {α : Type}

namespace Override

def walking : Override m α := fun _ _ => return .walk fun _ => return none

def hook (o : Override m α) (place : Place) (a : α) (walk : m (Visit α)) : m (Visit α) := do
  match ← o place a with
  | .finish outcome => return outcome
  | .walk after => do
    let outcome ← walk
    return (← after (outcome.getD a)).getD outcome

variable [LawfulMonad m]

theorem hook_oblivious (o : Override m α) (place : Place) (a : α) : Oblivious a (o.hook place a) := by
  intro walk
  rw [hook, hook, map_bind, map_bind]
  apply bind_congr
  intro reply
  cases reply with
  | finish outcome => rfl
  | walk after =>
    simp only [bind_map_left, map_bind]
    apply bind_congr
    intro outcome
    apply bind_congr
    intro own
    cases own <;> simp

end Override

structure Overrides (m : Type → Type) [Monad m] where
  target : SourceKind := .xml
  document : Override m Document := .walking
  prolog : Override m Prolog := .walking
  declaration : Override m Declaration := .walking
  tag : Override m Tag := .walking
  attr : Place → Attribute → m (Visit Attribute) := fun _ _ => return .unchanged
  charData : Place → CharData → m (Visit CharData) := fun _ _ => return .unchanged
  comment : Place → Comment → m (Visit Comment) := fun _ _ => return .unchanged
  instruction : Place → Instruction → m (Visit Instruction) := fun _ _ => return .unchanged
  docType : Place → DocType → m (Visit DocType) := fun _ _ => return .unchanged

def Overrides.visitor (o : Overrides m) : Visitor m where
  target := o.target
  document := o.document.hook
  prolog := o.prolog.hook
  declaration := o.declaration.hook
  tag := o.tag.hook
  attr := o.attr
  charData := o.charData
  comment := o.comment
  instruction := o.instruction
  docType := o.docType

theorem Overrides.visitor_isOblivious [LawfulMonad m] (o : Overrides m) : o.visitor.IsOblivious where
  document := o.document.hook_oblivious
  prolog := o.prolog.hook_oblivious
  declaration := o.declaration.hook_oblivious
  tag := o.tag.hook_oblivious

end Emend.Markup
