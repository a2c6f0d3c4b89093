import Emend.Visit

/-! # Laws of visits

Visiting the items of a list is a plain map over it that keeps an item wherever its visit came to the same,
and counts as a change if some item did not stay the same.
-/

namespace Emend

/-- Everything is the same as itself. -/
class ReflSameAs (α : Type) [SameAs α] : Prop where
  same_self (a : α) : SameAs.same a a = true

instance {α : Type} [DecidableEq α] : ReflSameAs α := ⟨fun _ => SameAs.same_iff.2 rfl⟩

namespace Visit

variable {α β γ : Type}

@[simp] theorem getD_unchanged (a : α) : (unchanged : Visit α).getD a = a := rfl
@[simp] theorem getD_changed (a b : α) : (changed b).getD a = b := rfl
@[simp] theorem isChanged_unchanged : (unchanged : Visit α).isChanged = false := rfl
@[simp] theorem isChanged_changed (a : α) : (changed a).isChanged = true := rfl
@[simp] theorem map_unchanged (f : α → β) : (unchanged : Visit α).map f = unchanged := rfl
@[simp] theorem map_changed (f : α → β) (a : α) : (changed a).map f = changed (f a) := rfl

@[simp] theorem map_id_fun (v : Visit α) : v.map (fun a => a) = v := by cases v <;> rfl

theorem map_map (g : β → γ) (f : α → β) (v : Visit α) : (v.map f).map g = v.map (g ∘ f) := by
  cases v <;> rfl

@[simp] theorem getD_map (f : α → β) (a : α) (v : Visit α) : (v.map f).getD (f a) = f (v.getD a) := by
  cases v <;> rfl

@[simp] theorem isChanged_map (f : α → β) (v : Visit α) : (v.map f).isChanged = v.isChanged := by
  cases v <;> rfl

theorem getD_of_not_changed {a : α} {v : Visit α} (h : v.isChanged = false) : v.getD a = a := by
  cases v with
  | unchanged => rfl
  | changed b => cases h

theorem map_ite (f : α → β) (c : Prop) [Decidable c] (a : α) :
    (if c then changed a else unchanged).map f = if c then changed (f a) else unchanged := by
  split <;> rfl

theorem map_eq_ite (f : α → β) (a : α) (v : Visit α) :
    v.map f = if v.isChanged then changed (f (v.getD a)) else unchanged := by
  cases v <;> rfl

section Same

variable [SameAs α]

theorem of_of_same {a b : α} (h : SameAs.same b a = true) : of a b = unchanged := if_pos h

theorem of_of_not_same {a b : α} (h : ¬ SameAs.same b a = true) : of a b = changed b := if_neg h

/-- Settling drops changes and makes none. -/
theorem eq_changed_of_settle {a b : α} {v : Visit α} (h : v.settle a = changed b) : v = changed b := by
  cases v with
  | unchanged => cases h
  | changed c =>
    by_cases hs : SameAs.same c a = true
    · rw [settle, of_of_same hs] at h
      cases h
    · rw [settle, of_of_not_same hs] at h
      exact h

theorem ite_eq_of {a b : α} {changes : Bool} (h : changes = true ↔ ¬ SameAs.same b a = true) :
    (if changes then changed b else unchanged) = of a b := by
  by_cases hb : SameAs.same b a = true
  · rw [of_of_same hb, if_neg fun hc => h.1 hc hb]
  · rw [of_of_not_same hb, if_pos (h.2 hb)]

def keep (before after : α) : α := if SameAs.same after before then before else after

theorem isChanged_of (a b : α) : (of a b).isChanged = !SameAs.same b a := by
  unfold of
  split <;> simp [*, isChanged]

theorem getD_of (a b : α) : (of a b).getD a = keep a b := by
  unfold of keep
  split <;> rfl

variable [ReflSameAs α]

@[simp] theorem of_self (a : α) : of a a = unchanged := of_of_same (ReflSameAs.same_self a)

theorem settle_eq_of (a : α) (v : Visit α) : v.settle a = of a (v.getD a) := by
  cases v with
  | unchanged => exact (of_self a).symm
  | changed b => rfl

/-- A change counts against the kept item as it does against the new one. -/
theorem of_keep (a b : α) : of a (keep a b) = of a b := by
  unfold keep
  split
  · next h => rw [of_self, of_of_same h]
  · rfl

theorem getD_of_keep (a b : α) : (of a (keep a b)).getD a = keep a b := by
  rw [of_keep, getD_of]

end Same

section Equal

variable [DecidableEq α]

@[simp] theorem keep_eq (a b : α) : keep a b = b := by
  unfold keep
  split
  · next h => exact (SameAs.same_iff.1 h).symm
  · rfl

@[simp] theorem getD_of_eq (a b : α) : (of a b).getD a = b := by rw [getD_of, keep_eq]

@[simp] theorem getD_settle (a : α) (v : Visit α) : (v.settle a).getD a = v.getD a := by
  rw [settle_eq_of, getD_of_eq]

theorem of_eq_unchanged {a b : α} : of a b = unchanged ↔ b = a := by
  unfold of
  simp only [SameAs.same_iff]
  split <;> simp [*]

@[simp] theorem isChanged_of_eq (a b : α) : (of a b).isChanged = decide (b ≠ a) := by
  by_cases h : b = a
  · simp [h, isChanged]
  · simp [of, h, isChanged]

/-- A node with two parts changes if one of them does. -/
theorem of_pair [DecidableEq β] [DecidableEq γ] (build : α → β → γ) {a x : α} {b y : β}
    (inj : build x y = build a b ↔ x = a ∧ y = b) :
    of (build a b) (build x y) =
      if (of a x).isChanged || (of b y).isChanged then changed (build x y) else unchanged := by
  apply Eq.symm
  apply ite_eq_of
  simp [inj, Decidable.not_and_iff_or_not, -not_and]

theorem of_triple {δ : Type} [DecidableEq β] [DecidableEq γ] [DecidableEq δ] (build : α → β → γ → δ)
    {a x : α} {b y : β} {c z : γ} (inj : build x y z = build a b c ↔ x = a ∧ y = b ∧ z = c) :
    of (build a b c) (build x y z) =
      if (of a x).isChanged || (of b y).isChanged || (of c z).isChanged then changed (build x y z)
      else unchanged := by
  apply Eq.symm
  apply ite_eq_of
  simp [inj, Decidable.not_and_iff_or_not, or_assoc, -not_and]

theorem map_of [DecidableEq β] (f : α → β) {a b : α} (inj : f b = f a ↔ b = a) :
    (of a b).map f = of (f a) (f b) := by
  by_cases h : b = a
  · simp [h]
  · simp [of, h, inj]

end Equal

def result {m : Type → Type} [Monad m] (f : α → m (Visit α)) (a : α) : m α := (fun v => v.getD a) <$> f a

def kept {m : Type → Type} [Monad m] [SameAs α] (f : α → m (Visit α)) (a : α) : m α := keep a <$> result f a

/-- Settling an outcome leaves the kept item. -/
theorem settle_bind_congr {m : Type → Type} [Monad m] [LawfulMonad m] [SameAs α] [ReflSameAs α]
    (f : α → m (Visit α)) {a : α} {next : Visit α → m γ} {next' : α → m γ}
    (h : ∀ v b, v.settle a = of a b → (of a b).getD a = b → next v = next' b) :
    f a >>= next = kept f a >>= next' := by
  rw [kept, result, bind_map_left, bind_map_left]
  apply bind_congr
  intro v
  exact h v _ (by rw [settle_eq_of, of_keep]) (getD_of_keep a _)

/-- What a map over a list goes on with may use that there are as many results as items. -/
theorem mapM_bind_congr {m : Type → Type} [Monad m] [LawfulMonad m] {f : α → m β} {as : List α}
    {next next' : List β → m γ} (h : ∀ bs, bs.length = as.length → next bs = next' bs) :
    as.mapM f >>= next = as.mapM f >>= next' := by
  induction as generalizing next next' with
  | nil => simpa using h [] rfl
  | cons a as ih =>
    simp only [List.mapM_cons, bind_assoc, pure_bind]
    apply bind_congr
    intro b
    exact ih fun bs hbs => h (b :: bs) (congrArg Nat.succ hbs)

section Lists

variable [SameAs α]

/-- The items after their visits: those there were, wherever the visit came to the same. A change only if
some item is not the same. -/
def ofAll (before after : List α) : Visit (List α) :=
  if after.isEqv before SameAs.same then unchanged else changed (List.zipWith keep before after)

theorem ofAll_eq_unchanged {as bs : List α} :
    ofAll as bs = unchanged ↔ bs.isEqv as SameAs.same = true := by
  unfold ofAll
  split <;> simp [*]

/-- Items that stayed the same are the items there were. -/
theorem zipWith_keep_of_same {as bs : List α} (h : bs.isEqv as SameAs.same = true) :
    List.zipWith keep as bs = as := by
  induction as generalizing bs with
  | nil => rfl
  | cons a as ih =>
    cases bs with
    | nil => cases h
    | cons b bs =>
      obtain ⟨hb, hbs⟩ := Bool.and_eq_true_iff.1 h
      rw [List.zipWith_cons_cons, ih hbs, keep, if_pos hb]

theorem getD_ofAll (as bs : List α) : (ofAll as bs).getD as = List.zipWith keep as bs := by
  unfold ofAll
  split
  · next h => exact (zipWith_keep_of_same h).symm
  · rfl

theorem isChanged_ofAll (as bs : List α) : (ofAll as bs).isChanged = !bs.isEqv as SameAs.same := by
  unfold ofAll
  split <;> simp [*, isChanged]

theorem ofAll_cons (a b : α) (as bs : List α) :
    ofAll (a :: as) (b :: bs) = if (of a b).isChanged || (ofAll as bs).isChanged then
      changed ((of a b).getD a :: (ofAll as bs).getD as) else unchanged := by
  rw [getD_ofAll, getD_of, isChanged_of, isChanged_ofAll, ofAll]
  cases hb : SameAs.same b a with
  | false => simp [List.isEqv, hb]
  | true => cases hbs : bs.isEqv as SameAs.same <;> simp [List.isEqv, hb, hbs]

variable {m : Type → Type} [Monad m] [LawfulMonad m] [ReflSameAs α]

/-- Visiting the items is a plain map over them. -/
theorem each_eq_mapM (f : α → m (Visit α)) (as : List α) :
    each f as = ofAll as <$> as.mapM (result f) := by
  induction as with
  | nil => simp [each, ofAll, List.isEqv]
  | cons a as ih =>
    simp only [each, List.mapM_cons, ih, result, settle_eq_of, map_bind, bind_map_left, bind_pure_comp,
      Functor.map_map, ofAll_cons]

omit [ReflSameAs α] in
theorem mapM_kept (f : α → m (Visit α)) (as : List α) :
    as.mapM (kept f) = List.zipWith keep as <$> as.mapM (result f) := by
  induction as with
  | nil => simp
  | cons a as ih =>
    simp only [List.mapM_cons, ih, kept, map_bind, bind_map_left, map_pure, List.zipWith_cons_cons]

end Lists

section EqualLists

variable [DecidableEq α] {m : Type → Type} [Monad m] [LawfulMonad m]

/-- Where the same means equal, the change is the mapped list. -/
theorem each_eq_of_mapM (f : α → m (Visit α)) (as : List α) :
    each f as = of as <$> as.mapM (result f) := by
  induction as with
  | nil => simp [each]
  | cons a as ih =>
    simp only [each, List.mapM_cons, ih, result, settle_eq_of, map_bind, bind_map_left, bind_pure_comp,
      Functor.map_map, of_pair List.cons List.cons_eq_cons, getD_of_eq]

end EqualLists

end Visit
end Emend
