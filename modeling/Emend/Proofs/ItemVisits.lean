import Emend.Proofs.Outcome
import Emend.Proofs.Visit

/-! # The visits of the items of a list

The items are visited from the left, and the first error ends it. The list that takes their place can be begun at
the first item that really changes, with those before it: nothing is copied until then, and it comes to the same
(`gather_eq_each`). What comes out is told item by item (`each_course`). Items are of any type, so that they may hold
more than what makes them the same: where nothing really changed, the item itself stays.
-/

namespace Emend.Visit

variable {α σ ε : Type}

/-- The list begun so far goes on with the item `a`; a change begins it with the items before. -/
def place (rebuilt : Option (List α)) (before : List α) (a : α) : Visit α → Option (List α)
  | unchanged => rebuilt.map (· ++ [a])
  | changed b => some (rebuilt.getD before ++ [b])

/-- The list begun so far, over the items `before`, goes on with the items `as`, whose visits come to `v`. -/
def placeAll (rebuilt : Option (List α)) (before as : List α) : Visit (List α) → Option (List α)
  | unchanged => rebuilt.map (· ++ as)
  | changed bs => some (rebuilt.getD before ++ bs)

theorem placeAll_place (rebuilt : Option (List α)) (before as : List α) (a : α) (v : Visit α) (vs : Visit (List α)) :
    placeAll (place rebuilt before a v) (before ++ [a]) as vs =
      placeAll rebuilt before (a :: as)
        (if v.isChanged || vs.isChanged then changed (v.getD a :: vs.getD as) else unchanged) := by
  cases rebuilt <;> cases v <;> cases vs <;> simp [place, placeAll, isChanged, getD]

/-- A list that was begun is a change. -/
def ofRebuilt (rebuilt : Option (List α)) : Visit (List α) := rebuilt.elim unchanged changed

section Gather

variable {m : Type → Type} [Monad m] [SameAs α]

def gatherTurn (f : α → m (Visit α)) (items : List α) (rebuilt : Option (List α)) (item : α × Nat) :
    m (Option (List α)) := do
  let v := (← f item.1).settle item.1
  return place rebuilt (items.take item.2) item.1 v

/-- Visits the items in turn, with one list that is begun at the first change. -/
def gather (f : α → m (Visit α)) (items : List α) : m (Visit (List α)) := do
  return ofRebuilt (← items.zipIdx.foldlM (gatherTurn f items) none)

variable [LawfulMonad m]

/-- At each turn the list begun holds what became of the items before. -/
theorem foldlM_gatherTurn (f : α → m (Visit α)) {items before as : List α} (h : items = before ++ as)
    (rebuilt : Option (List α)) :
    (as.zipIdx before.length).foldlM (gatherTurn f items) rebuilt = placeAll rebuilt before as <$> each f as := by
  induction as generalizing before rebuilt with
  | nil => cases rebuilt <;> simp [each, placeAll]
  | cons a as ih =>
    have taken : items.take before.length = before := by rw [h, List.take_left]
    have rest := @ih (before ++ [a]) (by rw [h, List.append_assoc, List.singleton_append])
    rw [List.length_append, List.length_singleton] at rest
    simp only [List.zipIdx_cons, List.foldlM_cons, gatherTurn, each, taken, bind_assoc, pure_bind, rest,
      map_eq_pure_bind, placeAll_place]

theorem gather_eq_each (f : α → m (Visit α)) (items : List α) : gather f items = each f items := by
  have all := foldlM_gatherTurn f (show items = [] ++ items from rfl) none
  rw [List.length_nil] at all
  rw [gather, all, bind_map_left]
  refine Eq.trans (bind_congr fun v => ?_) (bind_pure _)
  cases v <;> rfl

end Gather

/-- The calls on the items, one after the other and none with an error: what each comes to, and the state behind
the last one. -/
inductive Calls (f : α → ExceptT ε (StateM σ) (Visit α)) : σ → List α → List (Visit α) → σ → Prop
  | nil (s : σ) : Calls f s [] [] s
  | cons {s s' s'' : σ} {a : α} {v : Visit α} {as : List α} {vs : List (Visit α)}
    (call : (f a).run.run s = (.ok v, s')) (rest : Calls f s' as vs s'') : Calls f s (a :: as) (v :: vs) s''

/-- The calls go on to the end or to the first error. -/
theorem calls_or_error (f : α → ExceptT ε (StateM σ) (Visit α)) (items : List α) (s : σ) :
    (∃ vs s', Calls f s items vs s') ∨ ∃ before a after vs s' e s'', items = before ++ a :: after ∧
      Calls f s before vs s' ∧ (f a).run.run s' = (.error e, s'') := by
  induction items generalizing s with
  | nil => exact .inl ⟨[], s, .nil s⟩
  | cons a as ih =>
    rcases hr : (f a).run.run s with ⟨r, s'⟩
    cases r with
    | error e => exact .inr ⟨[], a, as, [], s, e, s', rfl, .nil s, hr⟩
    | ok v =>
      obtain ⟨vs, s'', calls⟩ | ⟨before, b, after, vs, t, e, t', split, calls, call⟩ := ih s'
      · exact .inl ⟨v :: vs, s'', .cons hr calls⟩
      · exact .inr ⟨a :: before, b, after, v :: vs, t, e, t', congrArg (a :: ·) split, .cons hr calls, call⟩

variable [SameAs α]

def Idle (before : α) : Visit α → Prop
  | unchanged => True
  | changed b => SameAs.same b before = true

def AllIdle (items : List α) (vs : List (Visit α)) : Prop :=
  ∀ (i : Nat) (a : α) (v : Visit α), items[i]? = some a → vs[i]? = some v → v.Idle a

/-- What stands in the places of the items when their visits came to `vs`. -/
structure Rebuilt (items : List α) (vs : List (Visit α)) (bs : List α) : Prop where
  length : bs.length = items.length
  original : ∀ (i : Nat) (a : α) (v : Visit α), items[i]? = some a → vs[i]? = some v → v.Idle a → bs[i]? = some a
  renewed : ∀ (i : Nat) (a b : α),
    items[i]? = some a → vs[i]? = some (changed b) → ¬SameAs.same b a = true → bs[i]? = some b

/-- How the visits of the items go from the state `s`, and what they come to. -/
inductive Course (f : α → ExceptT ε (StateM σ) (Visit α)) (s : σ) (items : List α) :
    Except ε (Visit (List α)) × σ → Prop
  | stopped {before after : List α} {a : α} {vs : List (Visit α)} {s' s'' : σ} {e : ε}
    (split : items = before ++ a :: after) (calls : Calls f s before vs s')
    (call : (f a).run.run s' = (.error e, s'')) : Course f s items (.error e, s'')
  | finished {vs : List (Visit α)} {s' : σ} {v : Visit (List α)} (calls : Calls f s items vs s')
    (idle : v = unchanged ↔ AllIdle items vs) (rebuilt : ∀ bs, v = changed bs → Rebuilt items vs bs) :
    Course f s items (.ok v, s')

theorem settle_of_idle {a : α} {v : Visit α} (h : v.Idle a) : v.settle a = unchanged := by
  cases v with
  | unchanged => rfl
  | changed b => exact of_of_same h

theorem isChanged_settle_iff {a : α} {v : Visit α} : (v.settle a).isChanged = false ↔ v.Idle a := by
  constructor
  · intro h
    cases v with
    | unchanged => trivial
    | changed b =>
      rw [settle, isChanged_of, Bool.not_eq_false'] at h
      exact h
  · intro h
    rw [settle_of_idle h, isChanged_unchanged]

theorem allIdle_cons {a : α} {v : Visit α} {as : List α} {vs : List (Visit α)} :
    AllIdle (a :: as) (v :: vs) ↔ v.Idle a ∧ AllIdle as vs := by
  constructor
  · intro h
    exact ⟨h 0 a v rfl rfl, fun i => h (i + 1)⟩
  · rintro ⟨first, rest⟩ i x w hx hw
    cases i with
    | zero =>
      cases hx
      cases hw
      exact first
    | succ i => exact rest i x w hx hw

theorem Rebuilt.nil : Rebuilt ([] : List α) [] [] := ⟨rfl, nofun, nofun⟩

theorem Rebuilt.cons {as bs : List α} {vs : List (Visit α)} (h : Rebuilt as vs bs) (a : α) (v : Visit α) :
    Rebuilt (a :: as) (v :: vs) ((v.settle a).getD a :: bs) where
  length := congrArg Nat.succ h.length
  original i x w hx hw idle := by
    cases i with
    | zero =>
      cases hx
      cases hw
      rw [settle_of_idle idle, getD_unchanged, List.getElem?_cons_zero]
    | succ i => exact h.original i x w hx hw idle
  renewed i x b hx hb new := by
    cases i with
    | zero =>
      cases hx
      cases hb
      rw [settle, of_of_not_same new, getD_changed, List.getElem?_cons_zero]
    | succ i => exact h.renewed i x b hx hb new

/-- Behind calls without an error the items stand in their places, and there is a change if one of them really
changed. -/
theorem run_each_of_calls {f : α → ExceptT ε (StateM σ) (Visit α)} {s s' : σ} {as : List α} {vs : List (Visit α)}
    (h : Calls f s as vs s') : ∃ v, (each f as).run.run s = (.ok v, s') ∧ Rebuilt as vs (v.getD as) ∧
      (v.isChanged = false ↔ AllIdle as vs) := by
  induction h with
  | nil s => exact ⟨unchanged, rfl, .nil, iff_of_true rfl nofun⟩
  | @cons s s' s'' a v as vs call _ ih =>
    obtain ⟨vs', run, rebuilt, idle⟩ := ih
    refine ⟨if (v.settle a).isChanged || vs'.isChanged then changed ((v.settle a).getD a :: vs'.getD as) else unchanged,
      ?_, ?_, ?_⟩
    · rw [each, run_bind_of_ok call, run_bind_of_ok run]
      rfl
    · have same := rebuilt.cons a v
      split
      · exact same
      next idle =>
        obtain ⟨first, rest⟩ := Bool.or_eq_false_iff.1 (Bool.not_eq_true _ ▸ idle)
        rwa [getD_of_not_changed first, getD_of_not_changed rest] at same
    · rw [allIdle_cons, ← isChanged_settle_iff, ← idle, ← Bool.or_eq_false_iff]
      cases (v.settle a).isChanged || vs'.isChanged <;> simp

theorem run_each_of_error {f : α → ExceptT ε (StateM σ) (Visit α)} {s s' s'' : σ} {before : List α}
    {vs : List (Visit α)} {a : α} {e : ε} (h : Calls f s before vs s') (call : (f a).run.run s' = (.error e, s''))
    (after : List α) : (each f (before ++ a :: after)).run.run s = (.error e, s'') := by
  induction h with
  | nil s => rw [List.nil_append, each, run_bind_of_error call]
  | cons first _ ih => rw [List.cons_append, each, run_bind_of_ok first, run_bind_of_error (ih call)]

/-- The visits go on to the first error or to the end, and behind the last one every item is the one there was, or what
it really changed into. -/
theorem each_course (f : α → ExceptT ε (StateM σ) (Visit α)) (items : List α) (s : σ) :
    gather f items = each f items ∧ Course f s items ((each f items).run.run s) := by
  refine ⟨gather_eq_each f items, ?_⟩
  obtain ⟨vs, s', calls⟩ | ⟨before, a, after, vs, s', e, s'', rfl, calls, call⟩ := calls_or_error f items s
  · obtain ⟨v, run, rebuilt, idle⟩ := run_each_of_calls calls
    rw [run]
    refine .finished calls ?_ ?_
    · rw [← idle]
      cases v <;> simp
    · rintro bs rfl
      exact rebuilt
  · rw [run_each_of_error calls call]
    exact .stopped rfl calls call

end Emend.Visit
