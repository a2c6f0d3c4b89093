import Emend.Proofs.Pairing

/-! # Trees in pre-order

What is in a tree has an address, its index among the parts at each level from the root down. The order of addresses is
pre-order: what has parts comes before them, and a part with all that is in it before the next part.
-/

namespace Emend.Addressing

variable {α : Type} {parts : α → List α}

/-- What is at an address of the tree at `x`. -/
def at? (parts : α → List α) (x : α) : (address : List Nat) → Option α
  | [] => some x
  | i :: rest => (parts x)[i]?.bind (at? parts · rest)

/-- The log holds what is at each address of the tree, once each, in the order of the addresses. -/
def Tour (parts : α → List α) (x : α) (log : List α) : Prop :=
  ∃ addresses : List (List Nat), addresses.Pairwise (· < ·) ∧ (∀ a, a ∈ addresses ↔ (at? parts x a).isSome) ∧
    List.Forall₂ (fun a y => at? parts x a = some y) addresses log

/-- One tour after the other. -/
def Tours (parts : α → List α) (xs log : List α) : Prop :=
  ∃ logs, List.Forall₂ (Tour parts) xs logs ∧ log = logs.flatten

namespace Tours

variable {x : α} {xs ys log log' : List α}

protected theorem nil : Tours parts [] [] := ⟨[], .nil, rfl⟩

theorem append (h : Tours parts xs log) (h' : Tours parts ys log') : Tours parts (xs ++ ys) (log ++ log') := by
  obtain ⟨logs, h, rfl⟩ := h
  obtain ⟨logs', h', rfl⟩ := h'
  exact ⟨logs ++ logs', List.rel_append h h', List.flatten_append.symm⟩

theorem singleton_iff : Tours parts [x] log ↔ Tour parts x log := by
  constructor
  · rintro ⟨logs, h, rfl⟩
    obtain ⟨log, _, h, rest, rfl⟩ := List.forall₂_cons_left_iff.1 h
    cases rest
    rwa [List.flatten_singleton]
  · intro h
    exact ⟨[log], .cons h .nil, List.flatten_singleton.symm⟩

/-- The addresses in trees that stand side by side, the first of them with the index `k`. -/
theorem exists_addresses (h : Tours parts xs log) (k : Nat) :
    ∃ addresses : List (List Nat), addresses.Pairwise (· < ·) ∧
      (∀ a, a ∈ addresses ↔ ∃ i rest, a = (k + i) :: rest ∧ (xs[i]?.bind (at? parts · rest)).isSome) ∧
      List.Forall₂ (fun a y => ∃ i rest, a = (k + i) :: rest ∧ xs[i]?.bind (at? parts · rest) = some y)
        addresses log := by
  obtain ⟨logs, h, rfl⟩ := h
  induction h generalizing k with
  | nil => exact ⟨[], .nil, by simp, .nil⟩
  | @cons x log xs logs tour _ ih =>
    obtain ⟨here, sorted, complete, each⟩ := tour
    obtain ⟨later, sorted', complete', each'⟩ := ih (k + 1)
    -- the first tree has its addresses under `k`, the trees behind it have theirs from `k + 1` on
    refine ⟨here.map (k :: ·) ++ later, ?_, fun a => ?_, ?_⟩
    · rw [List.pairwise_append, List.pairwise_map]
      refine ⟨sorted.imp List.cons_lt_cons_self.2, sorted', ?_⟩
      intro a ha b hb
      obtain ⟨rest, -, rfl⟩ := List.mem_map.1 ha
      obtain ⟨i, rest', rfl, -⟩ := (complete' b).1 hb
      exact List.cons_lt_cons_iff.2 (.inl (by omega))
    · rw [List.mem_append, List.mem_map, complete']
      constructor
      · rintro (⟨rest, h, rfl⟩ | ⟨i, rest, rfl, h⟩)
        · exact ⟨0, rest, rfl, (complete rest).1 h⟩
        · exact ⟨i + 1, rest, by rw [Nat.add_right_comm, Nat.add_assoc], h⟩
      · rintro ⟨i, rest, rfl, h⟩
        cases i with
        | zero => exact .inl ⟨rest, (complete rest).2 h, rfl⟩
        | succ i => exact .inr ⟨i, rest, by rw [Nat.add_right_comm, Nat.add_assoc], h⟩
    · refine List.rel_append ?_ ?_
      · rw [List.forall₂_map_left_iff]
        exact each.imp fun rest y h => ⟨0, rest, rfl, h⟩
      · refine each'.imp ?_
        rintro a y ⟨i, rest, rfl, h⟩
        exact ⟨i + 1, rest, by rw [Nat.add_right_comm, Nat.add_assoc], h⟩

/-- The addresses below `x`. -/
theorem exists_below (h : Tours parts (parts x) log) :
    ∃ addresses : List (List Nat), addresses.Pairwise (· < ·) ∧
      (∀ a, a ∈ addresses ↔ a ≠ [] ∧ (at? parts x a).isSome) ∧
      List.Forall₂ (fun a y => at? parts x a = some y) addresses log := by
  obtain ⟨addresses, sorted, complete, each⟩ := h.exists_addresses 0
  refine ⟨addresses, sorted, fun a => ?_, each.imp ?_⟩
  · rw [complete]
    cases a with
    | nil => simp
    | cons i rest => simp [at?]
  · rintro a y ⟨i, rest, rfl, h⟩
    rwa [Nat.zero_add]

end Tours

namespace Tour

variable {x y : α} {log : List α}

/-- The tour of a tree begins at its root and goes on through the parts. -/
theorem of_parts (h : Tours parts (parts x) log) : Tour parts x (x :: log) := by
  obtain ⟨addresses, sorted, complete, each⟩ := h.exists_below
  refine ⟨[] :: addresses, List.pairwise_cons.2 ⟨fun a ha => ?_, sorted⟩, fun a => ?_, .cons rfl each⟩
  · obtain ⟨i, rest, rfl⟩ := List.exists_cons_of_ne_nil ((complete a).1 ha).1
    exact List.nil_lt_cons _ _
  · rw [List.mem_cons, complete]
    cases a with
    | nil => exact iff_of_true (.inl rfl) rfl
    | cons i rest => simp

theorem mem_iff (h : Tour parts x log) : y ∈ log ↔ ∃ a, at? parts x a = some y := by
  obtain ⟨addresses, -, complete, each⟩ := h
  constructor
  · intro hy
    obtain ⟨a, -, ha⟩ := exists_of_mem_right each hy
    exact ⟨a, ha⟩
  · rintro ⟨a, ha⟩
    obtain ⟨z, hz, ha'⟩ := exists_of_mem_left each ((complete a).2 (by rw [ha]; rfl))
    obtain rfl := Option.some.inj (ha.symm.trans ha')
    exact hz

end Tour
end Emend.Addressing
