import Emend.Error

/-! # Walks that keep their chain

What refers to each other by name is walked with the chain of names on the way to the one at hand: each is put on the
chain before what it refers to is walked, and taken off it behind that. By its type such a walk need not end.
-/

namespace Emend

abbrev OnChain (κ : Type) := StateT (List κ) (ExceptT Error Option)

namespace OnChain

variable {κ α β : Type} {chain : List κ}

/-- On the chain the walk ends with `y`, and leaves the chain as it was unless it fails. -/
def Ends (x : OnChain κ α) (chain : List κ) (y : Except Error α) : Prop := (x.run chain).run = some (y.map (·, chain))

namespace Ends

protected theorem pure (a : α) : Ends (pure a : OnChain κ α) chain (.ok a) := rfl

protected theorem throw (e : Error) : Ends (throw e : OnChain κ α) chain (.error e) := rfl

protected theorem liftExcept (y : Except Error α) : Ends (liftExcept y : OnChain κ α) chain y := by
  cases y <;> rfl

theorem get_bind {f : List κ → OnChain κ α} {y : Except Error α} (h : Ends (f chain) chain y) :
    Ends (get >>= f) chain y := h

theorem bind {x : OnChain κ α} {y : Except Error α} {f : α → OnChain κ β} {g : α → Except Error β} (hx : Ends x chain y)
    (hf : ∀ a, y = .ok a → Ends (f a) chain (g a)) : Ends (x >>= f) chain (y >>= g) := by
  unfold Ends at *
  rw [StateT.run_bind, ExceptT.run_bind, hx]
  cases y with
  | error e => rfl
  | ok a => exact hf a rfl

/-- What is put on the chain for a while. -/
theorem within {x : OnChain κ α} {y : Except Error α} {enter leave : List κ → List κ} {f : α → OnChain κ β}
    {g : α → Except Error β} (hx : Ends x (enter chain) y) (back : leave (enter chain) = chain)
    (hf : ∀ a, y = .ok a → Ends (f a) chain (g a)) :
    Ends (modify enter >>= fun _ => x >>= fun a => modify leave >>= fun _ => f a) chain (y >>= g) := by
  have run {γ : Type} (change : List κ → List κ) (z : OnChain κ γ) (k : List κ) :
      ((modify change >>= fun _ => z).run k).run = (z.run (change k)).run := rfl
  unfold Ends at *
  rw [run, StateT.run_bind, ExceptT.run_bind, hx]
  cases y with
  | error e => rfl
  | ok a =>
    refine (run leave (f a) (enter chain)).trans ?_
    rw [back]
    exact hf a rfl

end Ends

def result (x : OnChain κ α) (chain : List κ) (ends : (x.run chain).run.isSome = true) : Except Error α :=
  ((x.run chain).run.get ends).map (·.1)

theorem Ends.isSome {x : OnChain κ α} {y : Except Error α} (h : Ends x chain y) :
    (x.run chain).run.isSome = true := by
  rw [h]
  rfl

theorem Ends.result_eq {x : OnChain κ α} {y : Except Error α} (h : Ends x chain y) : x.result chain h.isSome = y := by
  rw [result, Option.get_of_eq_some _ h]
  cases y <;> rfl

end OnChain
end Emend
