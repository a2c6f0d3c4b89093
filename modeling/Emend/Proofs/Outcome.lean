/-! # Results and errors

How a computation that may fail comes to its result.
-/

namespace Emend

variable {ε α β : Type}

theorem bind_eq_ok {x : Except ε α} {f : α → Except ε β} {b : β} :
    x >>= f = .ok b ↔ ∃ a, x = .ok a ∧ f a = .ok b := by
  constructor
  · intro h
    cases x with
    | error e => cases h
    | ok a => exact ⟨a, rfl, h⟩
  · rintro ⟨a, rfl, h⟩
    exact h

theorem bind_of_ok {x : Except ε α} {f : α → Except ε β} {a : α} (h : x = .ok a) : x >>= f = f a := by
  rw [h]
  rfl

theorem map_eq_ok {x : Except ε α} {f : α → β} {b : β} :
    x.map f = .ok b ↔ ∃ a, x = .ok a ∧ f a = b := by
  cases x <;> simp [Except.map]

theorem bind_eq_error {x : Except ε α} {f : α → Except ε β} {e : ε} :
    x >>= f = .error e ↔ x = .error e ∨ ∃ a, x = .ok a ∧ f a = .error e := by
  cases x <;> simp [bind, Except.bind]

/-- What is only made into something else did not fail there. -/
theorem error_of_bind_pure {x : Except ε α} {f : α → β} {e : ε} (h : (x >>= fun a => pure (f a)) = .error e) :
    x = .error e := by
  obtain h | ⟨_, _, ⟨⟩⟩ := bind_eq_error.1 h
  exact h

theorem map_eq_error {x : Except ε α} {f : α → β} {e : ε} : x.map f = .error e ↔ x = .error e := by
  cases x <;> simp [Except.map]

theorem mapError_eq_ok {δ : Type} {x : Except ε α} {f : ε → δ} {a : α} : x.mapError f = .ok a ↔ x = .ok a := by
  cases x with
  | error e => exact ⟨nofun, nofun⟩
  | ok b => exact ⟨fun h => congrArg Except.ok (Except.ok.inj h), fun h => congrArg Except.ok (Except.ok.inj h)⟩

/-- A run that succeeded, with the state it ended in. -/
theorem exists_eq_ok_of_toBool {σ : Type} {x : Except ε α × σ} (h : x.1.toBool = true) :
    ∃ a, x = (.ok a, x.2) := by
  obtain ⟨r, s⟩ := x
  cases r with
  | error e => cases h
  | ok a => exact ⟨a, rfl⟩

section Run

variable {σ : Type} {x : ExceptT ε (StateM σ) α} {s s' : σ}

theorem run_get_bind (f : σ → ExceptT ε (StateM σ) β) (s : σ) : (get >>= f).run.run s = (f s).run.run s := rfl

theorem run_liftM_bind (y : StateM σ α) (f : α → ExceptT ε (StateM σ) β) (s : σ) :
    ((liftM y : ExceptT ε (StateM σ) α) >>= f).run.run s = (f (y.run s).1).run.run (y.run s).2 := rfl

theorem run_bind_of_ok {f : α → ExceptT ε (StateM σ) β} {a : α} (h : x.run.run s = (.ok a, s')) :
    (x >>= f).run.run s = (f a).run.run s' := by
  rw [ExceptT.run_bind, StateT.run_bind, h]
  rfl

theorem run_bind_of_error {f : α → ExceptT ε (StateM σ) β} {e : ε} (h : x.run.run s = (.error e, s')) :
    (x >>= f).run.run s = (.error e, s') := by
  rw [ExceptT.run_bind, StateT.run_bind, h]
  rfl

theorem run_map_of_run {f : α → β} {r : Except ε α} (h : x.run.run s = (r, s')) :
    (f <$> x).run.run s = (r.map f, s') := by
  rw [ExceptT.run_map, StateT.run_map, h]
  rfl

end Run

end Emend
