import Emend.Proofs.Outcome
import Emend.Proofs.Visit
import Emend.SourceVisitor

/-! # Visits that finish

A visit that is not asked to stop comes to an end, and what it comes to can be told from its parts.
-/

namespace Emend.Recipes

open Markup

theorem run_checkpoint {σ : Type} {k : σ} (s : Session) :
    ((Cancellable.checkpoint : StateT σ Visiting Unit).run k).run.run s =
      (if s.context.cancelled then .error (.error .cancelled) else .ok ((), k), s) := by
  change ((if s.context.cancelled = true then (Visiting.fail .cancelled : Visiting Unit) else Pure.pure ()) >>=
    fun u => Pure.pure (u, k)).run.run s = _
  split <;> rfl

/-- Unless the session is cancelled, the visit finishes with a result that satisfies `P`, and does not cancel it. -/
def Finishes {α : Type} (x : StateT Unit Visiting α) (P : α → Prop) : Prop :=
  ∀ s : Session, s.context.cancelled = false →
    ∃ a s', (x.run ()).run.run s = (.ok (a, ()), s') ∧ s'.context.cancelled = false ∧ P a

namespace Finishes

variable {α β : Type} {P : α → Prop} {Q : β → Prop} {x : StateT Unit Visiting α}

theorem pure {a : α} (h : P a) : Finishes (Pure.pure a) P := fun s hs => ⟨a, s, rfl, hs, h⟩

theorem bind {f : α → StateT Unit Visiting β} (hx : Finishes x P) (hf : ∀ a, P a → Finishes (f a) Q) :
    Finishes (x >>= f) Q := by
  intro s hs
  obtain ⟨a, s₁, hx, hs₁, ha⟩ := hx s hs
  obtain ⟨b, s₂, hf, hs₂, hb⟩ := hf a ha s₁ hs₁
  refine ⟨b, s₂, ?_, hs₂, hb⟩
  rw [StateT.run_bind, run_bind_of_ok hx]
  exact hf

theorem bind_eq {a : α} {f : α → StateT Unit Visiting β} (hx : Finishes x (· = a)) (hf : Finishes (f a) Q) :
    Finishes (x >>= f) Q := by
  refine hx.bind ?_
  rintro _ rfl
  exact hf

theorem map {f : α → β} (hx : Finishes x P) (hf : ∀ a, P a → Q (f a)) : Finishes (f <$> x) Q := by
  rw [← bind_pure_comp]
  exact hx.bind fun a ha => .pure (hf a ha)

theorem mono {Q : α → Prop} (hx : Finishes x P) (h : ∀ a, P a → Q a) : Finishes x Q := by
  intro s hs
  obtain ⟨a, s', hx, hs', ha⟩ := hx s hs
  exact ⟨a, s', hx, hs', h a ha⟩

/-- There is only one result. -/
theorem and {Q : α → Prop} (hP : Finishes x P) (hQ : Finishes x Q) : Finishes x fun a => P a ∧ Q a := by
  intro s hs
  obtain ⟨a, s', hx, hs', ha⟩ := hP s hs
  obtain ⟨b, _, hx', -, hb⟩ := hQ s hs
  rw [hx] at hx'
  cases hx'
  exact ⟨a, s', hx, hs', ha, hb⟩

theorem checkpoint : Finishes Cancellable.checkpoint fun _ => True := by
  intro s hs
  refine ⟨(), s, ?_, hs, trivial⟩
  rw [run_checkpoint, if_neg (by rw [hs]; exact Bool.false_ne_true)]

theorem fresh {y : Fresh α} (h : ∀ s, P (y.run s).1) : Finishes (StateT.lift (Visiting.fresh y)) P := fun s hs =>
  ⟨(y.run s.supply).1, { s with supply := (y.run s.supply).2 }, rfl, hs, h _⟩

end Finishes

section

variable {σ : Type} {v : Markup.Visitor (StateT σ Visiting)} {start final : σ} {d : Document}

/-- What a visitor of markup comes to as one of source files. -/
theorem run_ofMarkup {s s' : Session} {x : Visit Document} (hk : d.kind.isA v.target = true)
    (h : ((v.visit d).run start).run.run s = (.ok (x, final), s')) :
    ((SourceVisitor.ofMarkup v start).visit (.markup d)).run.run s =
      (.ok ((x.map .markup).settle (.markup d)), s') := by
  have hrun : ((v.visit d).run' start).run.run s = (.ok x, s') := run_map_of_run h
  rw [SourceVisitor.ofMarkup]
  dsimp only
  rw [if_pos hk]
  exact run_bind_of_ok hrun

theorem run_ofMarkup_of_other (hk : ¬d.kind.isA v.target = true) (s : Session) :
    ((SourceVisitor.ofMarkup v start).visit (.markup d)).run.run s = (.ok .unchanged, s) := by
  rw [SourceVisitor.ofMarkup]
  dsimp only
  rw [if_neg hk]
  rfl

end

end Emend.Recipes
