/-! # Sorted maps

Values under keys, in the order of the keys.
-/

namespace Emend

/-- Entries sorted by key, one a key. -/
structure SortedMap (α : Type) where
  entries : List (String × α)
  sorted : entries.Pairwise fun p q => p.1 < q.1
deriving DecidableEq

namespace SortedMap

variable {α : Type}

def empty : SortedMap α := ⟨[], .nil⟩

instance : Inhabited (SortedMap α) := ⟨empty⟩

/-- Puts a value under its key in a sorted list of entries, in place of the one there. -/
def insertEntry (key : String) (a : α) : List (String × α) → List (String × α)
  | [] => [(key, a)]
  | (k, b) :: rest =>
    if key < k then (key, a) :: (k, b) :: rest
    else if key = k then (key, a) :: rest
    else (k, b) :: insertEntry key a rest

theorem eq_or_mem_of_mem_insertEntry {key : String} {a : α} {entries : List (String × α)} {p : String × α}
    (h : p ∈ insertEntry key a entries) : p = (key, a) ∨ p ∈ entries := by
  induction entries with
  | nil => exact .inl (List.mem_singleton.1 h)
  | cons q rest ih =>
    rw [insertEntry] at h
    split at h
    · exact List.mem_cons.1 h
    · split at h
      · rcases List.mem_cons.1 h with h | h
        · exact .inl h
        · exact .inr (List.mem_cons_of_mem _ h)
      · rcases List.mem_cons.1 h with rfl | h
        · exact .inr List.mem_cons_self
        · rcases ih h with h | h
          · exact .inl h
          · exact .inr (List.mem_cons_of_mem _ h)

theorem sorted_insertEntry {key : String} {a : α} {entries : List (String × α)}
    (h : entries.Pairwise fun p q => p.1 < q.1) :
    (insertEntry key a entries).Pairwise fun p q => p.1 < q.1 := by
  induction entries with
  | nil => exact List.pairwise_singleton _ _
  | cons q rest ih =>
    obtain ⟨hq, hr⟩ := List.pairwise_cons.1 h
    rw [insertEntry]
    split
    next hlt =>
      refine List.pairwise_cons.2 ⟨fun p hp => ?_, h⟩
      rcases List.mem_cons.1 hp with rfl | hp
      · exact hlt
      · exact String.lt_trans hlt (hq p hp)
    next hlt =>
      split
      next he =>
        subst he
        exact List.pairwise_cons.2 ⟨hq, hr⟩
      next hne =>
        refine List.pairwise_cons.2 ⟨fun p hp => ?_, ih hr⟩
        rcases eq_or_mem_of_mem_insertEntry hp with rfl | hp
        · exact Std.lt_of_le_of_ne (String.not_lt.1 hlt) (Ne.symm hne)
        · exact hq p hp

def insert (m : SortedMap α) (key : String) (a : α) : SortedMap α :=
  ⟨insertEntry key a m.entries, sorted_insertEntry m.sorted⟩

/-- Of several values under one key the last stays. -/
def ofList (entries : List (String × α)) : SortedMap α := entries.foldl (fun m (key, a) => m.insert key a) empty

def find? (m : SortedMap α) (key : String) : Option α := m.entries.lookup key

def keys (m : SortedMap α) : List String := m.entries.map (·.1)

variable {m : SortedMap α} {key key' : String} {a : α}

theorem not_mem_keys (h : m.find? key = none) : key ∉ m.keys := by
  intro found
  obtain ⟨p, hp, rfl⟩ := List.mem_map.1 found
  have other := List.lookup_eq_none_iff.1 h p hp
  simp at other

theorem lookup_insertEntry_self (entries : List (String × α)) : (insertEntry key a entries).lookup key = some a := by
  induction entries with
  | nil => exact List.lookup_cons_self
  | cons p rest ih =>
    rw [insertEntry]
    split
    · exact List.lookup_cons_self
    · split
      · exact List.lookup_cons_self
      next hne => rw [List.lookup_cons, beq_false_of_ne hne, ih]

theorem lookup_insertEntry_of_ne (h : key' ≠ key) (entries : List (String × α)) :
    (insertEntry key a entries).lookup key' = entries.lookup key' := by
  induction entries with
  | nil => rw [insertEntry, List.lookup_cons, beq_false_of_ne h]
  | cons p rest ih =>
    rw [insertEntry]
    split
    · rw [List.lookup_cons, beq_false_of_ne h]
    · split
      next he =>
        obtain ⟨k, b⟩ := p
        cases he
        rw [List.lookup_cons, List.lookup_cons, beq_false_of_ne h]
      · rw [List.lookup_cons, List.lookup_cons, ih]

theorem map_fst_insertEntry {entries : List (String × α)} (new : entries.lookup key = none) :
    ((insertEntry key a entries).map (·.1)).Perm (key :: entries.map (·.1)) := by
  induction entries with
  | nil => exact .refl _
  | cons p rest ih =>
    rw [List.lookup_cons] at new
    split at new
    · cases new
    next hne =>
      rw [insertEntry]
      split
      · exact .refl _
      · rw [if_neg (ne_of_beq_false hne)]
        exact ((ih new).cons p.1).trans (.swap ..)

theorem find?_insert_self : (m.insert key a).find? key = some a := lookup_insertEntry_self m.entries

theorem find?_insert_of_ne (h : key' ≠ key) : (m.insert key a).find? key' = m.find? key' :=
  lookup_insertEntry_of_ne h m.entries

/-- A new key joins the others. -/
theorem keys_insert (new : m.find? key = none) : (m.insert key a).keys.Perm (key :: m.keys) := map_fst_insertEntry new

end SortedMap
end Emend
