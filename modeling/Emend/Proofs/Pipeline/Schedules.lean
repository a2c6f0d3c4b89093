import Emend.Pipeline.Schedule
import Mathlib.Data.List.InsertIdx
import Mathlib.Data.List.Perm.Basic

/-! # Every order of visits

What a schedule arranges is put back in place, whatever came of each item, and every order is that of a schedule.
-/

namespace Emend.Schedule

variable {α β : Type} (σ : Schedule)

theorem length_arrange (as : List α) : (σ.arrange as).length = as.length := by
  induction as with
  | nil => rfl
  | cons a as ih =>
    have place : σ.place as.length ≤ (σ.arrange as).length := ih ▸ σ.place_le as.length
    rw [arrange, List.length_insertIdx_of_le_length place, ih, List.length_cons]

theorem perm_arrange (as : List α) : (σ.arrange as).Perm as := by
  induction as with
  | nil => exact .refl _
  | cons a as ih =>
    have place : σ.place as.length ≤ (σ.arrange as).length := σ.length_arrange as ▸ σ.place_le as.length
    exact (List.perm_insertIdx a _ place).trans (ih.cons a)

theorem restore_arrange (as : List α) : σ.restore as.length (σ.arrange as) = as := by
  induction as with
  | nil => rfl
  | cons a as ih =>
    have place : σ.place as.length ≤ (σ.arrange as).length := σ.length_arrange as ▸ σ.place_le as.length
    rw [arrange, List.length_cons, restore, List.getElem?_insertIdx_self, if_pos place,
      List.eraseIdx_insertIdx_self, ih]
    rfl

theorem restore_map (f : α → β) (n : Nat) (as : List α) : σ.restore n (as.map f) = (σ.restore n as).map f := by
  induction n generalizing as with
  | zero => rfl
  | succ n ih =>
    rw [restore, restore, List.getElem?_map, List.eraseIdx_map, ih, List.map_append, ← Option.toList_map]

theorem length_restore {n : Nat} {as : List α} (h : as.length = n) : (σ.restore n as).length = n := by
  induction n generalizing as with
  | zero => rfl
  | succ n ih =>
    have place : σ.place n < as.length := h ▸ Nat.lt_succ_of_le (σ.place_le n)
    have rest : (as.eraseIdx (σ.place n)).length = n := by rw [List.length_eraseIdx_of_lt place, h, Nat.add_sub_cancel]
    rw [restore, List.length_append, ih rest, List.getElem?_eq_getElem place, Option.toList_some, List.length_singleton,
      Nat.add_comm]

theorem mem_of_mem_restore {n : Nat} {as : List α} {a : α} (h : a ∈ σ.restore n as) : a ∈ as := by
  induction n generalizing as with
  | zero => cases h
  | succ n ih =>
    obtain here | later := List.mem_append.1 h
    · exact List.mem_of_getElem? (Option.mem_toList.1 here)
    · exact List.mem_of_mem_eraseIdx (ih later)

theorem arrange_congr {σ τ : Schedule} {as : List α} (h : ∀ n < as.length, σ.place n = τ.place n) :
    σ.arrange as = τ.arrange as := by
  induction as with
  | nil => rfl
  | cons a as ih =>
    have here : σ.place as.length = τ.place as.length := h as.length (Nat.lt_succ_self _)
    rw [arrange, arrange, here, ih fun n hn => h n (Nat.lt_succ_of_lt hn)]

/-- No order is left out. -/
theorem exists_arrange {as bs : List α} (h : bs.Perm as) : ∃ σ : Schedule, σ.arrange as = bs := by
  induction as generalizing bs with
  | nil => exact ⟨inOrder, (List.perm_nil.1 h).symm⟩
  | cons a as ih =>
    obtain ⟨i, hi, here⟩ := List.getElem_of_mem (h.symm.subset List.mem_cons_self)
    have first : (a :: bs.eraseIdx i).Perm bs := here ▸ List.getElem_cons_eraseIdx_perm hi
    obtain ⟨σ, rest⟩ := ih ((List.perm_cons a).1 (first.trans h))
    have le : i ≤ as.length := Nat.le_of_lt_succ (Nat.lt_of_lt_of_eq hi h.length_eq)
    -- the item at the head is placed at `i`, those behind it as before
    let τ : Schedule := {
      place n := if n = as.length then i else σ.place n
      place_le n := by
        split
        next e => exact e ▸ le
        next => exact σ.place_le n }
    have same : τ.arrange as = σ.arrange as := arrange_congr fun n hn => if_neg (Nat.ne_of_lt hn)
    have place : τ.place as.length = i := if_pos rfl
    refine ⟨τ, ?_⟩
    rw [arrange, same, rest, place, ← here]
    exact List.insertIdx_eraseIdx_getElem hi

end Emend.Schedule
