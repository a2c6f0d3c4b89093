import Emend.Proofs.Addressing
import Emend.Proofs.Pipeline.Stages
import Mathlib.Data.List.Induction
import Mathlib.Data.List.Nodup

/-! # Which forests become pipelines

A recipe of a forest has an address, its index among its siblings at each level from the root down. Pre-order is the
order of addresses, in which a recipe comes before those below it. A forest becomes a pipeline exactly if the chain to
no address repeats a name or is too long; otherwise the first such chain is the fault (`Pipeline.build_flattens`).
-/

namespace Emend

/-- The recipes from a root of the forest down to an address. -/
def Recipe.chain? : List Recipe → List Nat → Option (List Recipe)
  | _, [] => some []
  | rs, i :: rest => do
    let r ← rs[i]?
    return r :: (← chain? r.next rest)

/-- The stage of the last recipe of a chain. -/
def Stage.Ends (c : List Recipe) (s : Stage) : Prop :=
  ∃ above r, c = above ++ [r] ∧ s = ⟨r.name, r.visitor, c.map (·.name)⟩

/-- What is held against the last recipe of a chain. Where its name comes again, it does not matter how deep it is. -/
inductive ChainFault.Against : ChainFault → List Recipe → Prop where
  | repeated {above : List Recipe} {r : Recipe} (h : r.name ∈ above.map (·.name)) :
    Against (.repeated (above.map (·.name)) r.name) (above ++ [r])
  | tooLong {above : List Recipe} {r : Recipe} (new : r.name ∉ above.map (·.name)) (h : Stage.maxChain ≤ above.length) :
    Against (.tooLong r.name) (above ++ [r])

namespace Recipe

theorem chain?_cons {rs : List Recipe} {i : Nat} {rest : List Nat} {c : List Recipe} :
    chain? rs (i :: rest) = some c ↔ ∃ r below, rs[i]? = some r ∧ chain? r.next rest = some below ∧ c = r :: below := by
  rw [chain?]
  constructor
  · intro h
    obtain ⟨r, hr, h⟩ := Option.bind_eq_some_iff.1 h
    obtain ⟨below, hb, h⟩ := Option.bind_eq_some_iff.1 h
    cases h
    exact ⟨r, below, hr, hb, rfl⟩
  · rintro ⟨r, below, hr, hb, rfl⟩
    simp [hr, hb]

theorem chain?_take {rs : List Recipe} {a : List Nat} {c : List Recipe} (h : chain? rs a = some c) (n : Nat) :
    chain? rs (a.take n) = some (c.take n) := by
  induction a generalizing rs c n with
  | nil =>
    cases h
    rw [List.take_nil, List.take_nil, chain?]
  | cons i rest ih =>
    obtain ⟨r, below, hr, hb, rfl⟩ := chain?_cons.1 h
    cases n with
    | zero => rfl
    | succ n => exact chain?_cons.2 ⟨r, below.take n, hr, ih hb n, rfl⟩

/-- What may come next on a chain. -/
def nextOn (rs c : List Recipe) : List Recipe := (c.getLast?.map (·.next)).getD rs

def longer (rs c : List Recipe) : List (List Recipe) := (nextOn rs c).map fun r => c ++ [r]

theorem nextOn_concat (rs c : List Recipe) (r : Recipe) : nextOn rs (c ++ [r]) = r.next := by
  rw [nextOn, List.getLast?_concat, Option.map_some, Option.getD_some]

/-- The chains of a forest are a tree, which has them at the addresses of the forest. -/
theorem at?_longer (rs c : List Recipe) (a : List Nat) :
    Addressing.at? (longer rs) c a = (chain? (nextOn rs c) a).map (c ++ ·) := by
  induction a generalizing c with
  | nil => rw [Addressing.at?, chain?, Option.map_some, List.append_nil]
  | cons i rest ih =>
    rw [Addressing.at?, longer, List.getElem?_map]
    cases hr : (nextOn rs c)[i]? with
    | none => simp [chain?, hr]
    | some r =>
      rw [Option.map_some, Option.bind_some, ih, nextOn_concat]
      cases hb : chain? r.next rest <;> simp [chain?, hr, hb]

theorem at?_longer_nil (rs : List Recipe) (a : List Nat) : Addressing.at? (longer rs) [] a = chain? rs a := by
  rw [at?_longer]
  exact Option.map_id'

end Recipe

namespace Stage

mutual

/-- The listing of a tree goes through the chains in it. -/
theorem exists_tour_listing (rs above : List Recipe) (r : Recipe) :
    ∃ log, Addressing.Tour (Recipe.longer rs) (above ++ [r]) log ∧
      List.Forall₂ Ends log (listing (above.map (·.name)) r) := by
  obtain ⟨name, display, description, visitor, next⟩ := r
  obtain ⟨log, tours, ends⟩ := exists_tours_listingAll rs (above ++ [⟨name, display, description, visitor, next⟩]) next
  rw [List.map_append] at ends
  refine ⟨_ :: log, .of_parts (by rwa [Recipe.longer, Recipe.nextOn_concat]), ?_⟩
  rw [listing]
  exact .cons ⟨above, _, rfl, by rw [List.map_append]; rfl⟩ ends

theorem exists_tours_listingAll (rs above next : List Recipe) :
    ∃ log, Addressing.Tours (Recipe.longer rs) (next.map fun r => above ++ [r]) log ∧
      List.Forall₂ Ends log (listingAll (above.map (·.name)) next) := by
  cases next with
  | nil => exact ⟨[], .nil, .nil⟩
  | cons r next =>
    obtain ⟨log, tour, ends⟩ := exists_tour_listing rs above r
    obtain ⟨log', tours, ends'⟩ := exists_tours_listingAll rs above next
    exact ⟨log ++ log', (Addressing.Tours.singleton_iff.2 tour).append tours, List.rel_append ends ends'⟩

end

/-- The stages of a forest stand for its chains, in the order of their addresses. -/
theorem exists_places (rs : List Recipe) :
    ∃ places : List (List Nat), places.Pairwise (· < ·) ∧
      (∀ a, a ∈ places ↔ a ≠ [] ∧ (Recipe.chain? rs a).isSome = true) ∧
      List.Forall₂ (fun a s => ∃ c ∈ Recipe.chain? rs a, Ends c s) places (listingAll [] rs) := by
  obtain ⟨log, tours, ends⟩ := exists_tours_listingAll rs [] rs
  obtain ⟨places, sorted, complete, each⟩ := Addressing.Tours.exists_below (x := []) tours
  refine ⟨places, sorted, fun a => by rw [complete, Recipe.at?_longer_nil], ?_⟩
  refine (forall₂_comp each ends).imp ?_
  rintro a s ⟨c, hc, ends⟩
  exact ⟨c, by rwa [Recipe.at?_longer_nil] at hc, ends⟩

theorem fault?_eq_some_iff {c : List Recipe} {s : Stage} (h : Ends c s) {f : ChainFault} :
    s.fault? = some f ↔ f.Against c := by
  obtain ⟨above, r, rfl, rfl⟩ := h
  rw [List.map_append, List.map_singleton, fault?_child]
  constructor
  · intro fault
    split at fault
    next again =>
      cases fault
      exact .repeated (List.contains_iff_mem.1 again)
    next new =>
      split at fault
      next deep =>
        cases fault
        exact .tooLong (fun again => new (List.contains_iff_mem.2 again)) (by rwa [List.length_map] at deep)
      next => cases fault
  · generalize shown : above ++ [r] = c
    rintro (⟨again⟩ | ⟨new, deep⟩)
    · obtain ⟨rfl, same⟩ := List.append_inj' shown rfl
      cases same
      rw [if_pos (List.contains_iff_mem.2 again)]
    · obtain ⟨rfl, same⟩ := List.append_inj' shown rfl
      cases same
      rw [if_neg fun again => new (List.contains_iff_mem.1 again), if_pos (by rwa [List.length_map])]

end Stage

/-- Every name on a chain is another one, and the chain is not too long. -/
def Recipe.Fine (c : List Recipe) : Prop := (c.map (·.name)).Nodup ∧ c.length ≤ Stage.maxChain

theorem ChainFault.Against.not_fine {f : ChainFault} {c : List Recipe} (h : f.Against c) : ¬ Recipe.Fine c := by
  rintro ⟨names, short⟩
  cases h with
  | repeated again =>
    rw [List.map_append, List.nodup_append] at names
    exact names.2.2 _ again _ List.mem_cons_self rfl
  | tooLong _ deep =>
    rw [List.length_append, List.length_singleton] at short
    exact Nat.not_succ_le_self _ (Nat.le_trans short deep)

/-- A chain is fine if nothing is held against any recipe on it. -/
theorem Recipe.fine_of_unfaulted {c : List Recipe} (h : ∀ d, d <+: c → ∀ f : ChainFault, ¬ f.Against d) : Fine c := by
  induction c using List.reverseRecOn with
  | nil => exact ⟨List.nodup_nil, Nat.zero_le _⟩
  | append_singleton above r ih =>
    obtain ⟨names, -⟩ := ih fun d hd => h d (hd.trans (List.prefix_append _ _))
    have here := h _ (List.prefix_refl _)
    have new : r.name ∉ above.map (·.name) := fun again => here _ (.repeated again)
    refine ⟨?_, ?_⟩
    · rw [List.map_append, List.map_singleton, List.nodup_append]
      refine ⟨names, List.nodup_singleton _, ?_⟩
      rintro name hn _ hr rfl
      obtain rfl := List.mem_singleton.1 hr
      exact new hn
    · rw [List.length_append, List.length_singleton]
      exact Nat.lt_of_not_le fun deep => here _ (.tooLong new deep)

/-- What becomes of a forest. The recipes in `places` are those of the forest, each once, in pre-order. -/
structure Pipeline.Flattening (rs : List Recipe) (config : PipelineConfig) : Prop where
  builds : (∃ p, build rs config = .ok p) ↔ ∀ a c, Recipe.chain? rs a = some c → Recipe.Fine c
  stages : ∀ p, build rs config = .ok p → p.recipes = rs ∧ p.config = config ∧
    ∃ places, places.Pairwise (· < ·) ∧ (∀ a, a ∈ places ↔ a ≠ [] ∧ (Recipe.chain? rs a).isSome = true) ∧
      List.Forall₂ (fun a s => ∃ c ∈ Recipe.chain? rs a, Stage.Ends c s) places p.stages
  fault : (¬∃ p, build rs config = .ok p) → ∃ (a : List Nat) (c : List Recipe) (f : ChainFault),
    Recipe.chain? rs a = some c ∧ f.Against c ∧
    (∀ b < a, ∀ d (g : ChainFault), Recipe.chain? rs b = some d → ¬ g.Against d) ∧
    build rs config = .error (.config f.message)

/-- The first of the stages with a fault, and its address. -/
theorem Stage.exists_first {R : List Nat → Stage → Prop} {places : List (List Nat)} {stages : List Stage}
    (h : List.Forall₂ R places stages) (sorted : places.Pairwise (· < ·)) {f : ChainFault}
    (fault : stages.findSome? Stage.fault? = some f) :
    ∃ a ∈ places, ∃ s, R a s ∧ s.fault? = some f ∧ ∀ b ∈ places, b < a → ∃ t, R b t ∧ t.fault? = none := by
  induction h with
  | nil => cases fault
  | @cons a s places stages hs _ ih =>
    obtain ⟨first, sorted⟩ := List.pairwise_cons.1 sorted
    rw [List.findSome?_cons] at fault
    split at fault
    next found =>
      cases fault
      refine ⟨a, List.mem_cons_self, s, hs, found, fun b hb less => ?_⟩
      obtain rfl | hb := List.mem_cons.1 hb
      · exact absurd less (List.lt_irrefl b)
      · exact absurd less (List.lt_asymm (first b hb))
    next none =>
      obtain ⟨a', ha, s', hs', found, before⟩ := ih sorted fault
      refine ⟨a', List.mem_cons_of_mem _ ha, s', hs', found, fun b hb less => ?_⟩
      obtain rfl | hb := List.mem_cons.1 hb
      · exact ⟨s, hs, none⟩
      · exact before b hb less

theorem ChainFault.Against.place {f : ChainFault} {rs : List Recipe} {a : List Nat} {c : List Recipe} (h : f.Against c)
    (hc : Recipe.chain? rs a = some c) : a ≠ [] ∧ (Recipe.chain? rs a).isSome = true := by
  refine ⟨?_, by rw [hc]; rfl⟩
  rintro rfl
  cases hc
  generalize shown : ([] : List Recipe) = c at h
  cases h <;> exact List.append_ne_nil_of_right_ne_nil _ (List.cons_ne_nil _ _) shown.symm

/-- A fault on the chain to an address is the fault of the stage that stands for the chain. -/
theorem Stage.exists_faulted {rs : List Recipe} {a : List Nat} {c : List Recipe} {f : ChainFault}
    (h : Recipe.chain? rs a = some c) (against : f.Against c) : ∃ s ∈ listingAll [] rs, s.fault? = some f := by
  obtain ⟨places, -, complete, listed⟩ := exists_places rs
  obtain ⟨s, hs, d, hd, ends⟩ := exists_of_mem_left listed ((complete a).2 (against.place h))
  obtain rfl := Option.some.inj (h.symm.trans hd)
  exact ⟨s, hs, (fault?_eq_some_iff ends).2 against⟩

theorem Stage.unfaulted_iff {rs : List Recipe} : (listingAll [] rs).findSome? fault? = none ↔
    ∀ a c, Recipe.chain? rs a = some c → Recipe.Fine c := by
  rw [List.findSome?_eq_none_iff]
  constructor
  · intro h a c hc
    refine Recipe.fine_of_unfaulted fun d hd f against => ?_
    have prefixed := Recipe.chain?_take hc d.length
    rw [← List.prefix_iff_eq_take.1 hd] at prefixed
    obtain ⟨s, hs, fault⟩ := exists_faulted prefixed against
    rw [h s hs] at fault
    cases fault
  · intro h s hs
    obtain ⟨places, -, -, listed⟩ := exists_places rs
    obtain ⟨a, -, c, hc, ends⟩ := exists_of_mem_right listed hs
    refine Option.eq_none_iff_forall_ne_some.2 fun f fault => ?_
    exact ((fault?_eq_some_iff ends).1 fault).not_fine (h a c hc)

/-- A forest whose chains are fine becomes the stages of its recipes in pre-order; otherwise the first recipe with
something held against it is the fault. -/
theorem Pipeline.build_flattens (rs : List Recipe) (config : PipelineConfig) : Flattening rs config := by
  have built := build_eq rs config
  obtain ⟨places, sorted, complete, listed⟩ := Stage.exists_places rs
  cases fault : (Stage.listingAll [] rs).findSome? Stage.fault? with
  | none =>
    rw [fault] at built
    refine ⟨iff_of_true ⟨_, built⟩ (Stage.unfaulted_iff.1 fault), fun p hp => ?_, fun no => absurd ⟨_, built⟩ no⟩
    obtain rfl := Except.ok.inj (built.symm.trans hp)
    exact ⟨rfl, rfl, places, sorted, complete, listed⟩
  | some f =>
    rw [fault] at built
    have refused : ¬∃ p, build rs config = .ok p := by
      rintro ⟨p, hp⟩
      cases built.symm.trans hp
    refine ⟨iff_of_false refused fun fine => ?_, fun p hp => absurd ⟨p, hp⟩ refused, fun _ => ?_⟩
    · rw [Stage.unfaulted_iff.2 fine] at fault
      cases fault
    obtain ⟨a, ha, s, ⟨c, hc, ends⟩, found, before⟩ := Stage.exists_first listed sorted fault
    refine ⟨a, c, f, hc, (Stage.fault?_eq_some_iff ends).1 found, fun b less d g hd against => ?_, built⟩
    obtain ⟨t, ⟨d', hd', ends'⟩, unfaulted⟩ := before b ((complete b).2 (against.place hd)) less
    obtain rfl := Option.some.inj (hd.symm.trans hd')
    rw [(Stage.fault?_eq_some_iff ends').2 against] at unfaulted
    cases unfaulted

end Emend
