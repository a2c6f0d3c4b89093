/-! # Outcomes of a visit

A visit says `unchanged`, or `changed` with the new value. A change into something that is the same counts
as none, and a list is rebuilt only if an item really changed.
-/

namespace Emend

/-- Being the same for the purposes of a visit. -/
class SameAs (α : Type) where
  same : α → α → Bool

/-- Where equality can be decided, same means equal. -/
instance (priority := low) {α : Type} [DecidableEq α] : SameAs α := ⟨fun a b => decide (a = b)⟩

@[simp] theorem SameAs.same_iff {α : Type} [DecidableEq α] {a b : α} : SameAs.same a b = true ↔ a = b := by
  simp [SameAs.same]

inductive Visit (α : Type) where
  | unchanged
  | changed (a : α)
deriving DecidableEq, Inhabited

namespace Visit

variable {α β : Type}

def isChanged : Visit α → Bool
  | unchanged => false
  | changed _ => true

def map (f : α → β) : Visit α → Visit β
  | unchanged => unchanged
  | changed a => changed (f a)

def getD (before : α) : Visit α → α
  | unchanged => before
  | changed a => a

/-- A change only if `candidate` is not the same as `before`. -/
def of [SameAs α] (before candidate : α) : Visit α :=
  if SameAs.same candidate before then unchanged else changed candidate

/-- A change into the same is dropped. -/
def settle [SameAs α] (before : α) : Visit α → Visit α
  | unchanged => unchanged
  | changed a => of before a

/-- Visits the items from left to right. Items without a change stay what they are; without any change the
list does. -/
def each {m : Type → Type} [Monad m] [SameAs α] (f : α → m (Visit α)) : List α → m (Visit (List α))
  | [] => return unchanged
  | a :: as => do
    let v := (← f a).settle a
    let vs ← each f as
    return if v.isChanged || vs.isChanged then changed (v.getD a :: vs.getD as) else unchanged

end Visit
end Emend
