import Emend.Pipeline.Run

/-! # The stages of a forest

A forest becomes its recipes in pre-order, each under the names from its root, unless something is held against one of
them: then the first such recipe is the fault of the whole (`run_layOutAll`).
-/

namespace Emend

mutual

def Recipe.preorder : Recipe → List String
  | ⟨name, _, _, _, next⟩ => name :: Recipe.preorderAll next

def Recipe.preorderAll : List Recipe → List String
  | [] => []
  | r :: rs => r.preorder ++ Recipe.preorderAll rs

end

namespace Stage

mutual

def listing (above : List String) : Recipe → List Stage
  | ⟨name, _, _, visitor, next⟩ => ⟨name, visitor, above ++ [name]⟩ :: listingAll (above ++ [name]) next

def listingAll (above : List String) : List Recipe → List Stage
  | [] => []
  | r :: rs => listing above r ++ listingAll above rs

end

/-- What is held against a stage: its name above itself, or too long a chain. -/
def fault? (s : Stage) : Option ChainFault :=
  if s.name ∈ s.chain.dropLast then some (.repeated s.chain.dropLast s.name)
  else if maxChain < s.chain.length then some (.tooLong s.name)
  else none

def vetted (stages : List Stage) : Except ChainFault (List Stage) :=
  match stages.findSome? fault? with
  | some f => .error f
  | none => .ok stages

theorem vetted_cons (s : Stage) (stages : List Stage) :
    vetted (s :: stages) = match s.fault? with
      | some f => .error f
      | none => (vetted stages).map (s :: ·) := by
  rw [vetted, vetted, List.findSome?_cons]
  cases s.fault? with
  | some f => rfl
  | none => cases stages.findSome? fault? <;> rfl

theorem vetted_append (first rest : List Stage) :
    vetted (first ++ rest) = (do return (← vetted first) ++ (← vetted rest)) := by
  simp only [vetted, List.findSome?_append]
  cases first.findSome? fault? with
  | some f => rfl
  | none => cases rest.findSome? fault? <;> rfl

theorem fault?_child (above : List String) (name : String) (visitor : Option SourceVisitor) :
    fault? ⟨name, visitor, above ++ [name]⟩ =
      if above.contains name then some (.repeated above name)
      else if maxChain ≤ above.length then some (.tooLong name)
      else none := by
  have dropped : (above ++ [name]).dropLast = above := List.dropLast_concat
  simp only [fault?, dropped, List.contains_iff_mem, List.length_append, List.length_singleton, Nat.lt_succ_iff]

mutual

/-- The chain is behind a recipe what it was before. -/
theorem run_layOut (above : List String) (stages : List Stage) (r : Recipe) :
    (layOut r).run ⟨above, stages⟩ = (vetted (listing above r)).map fun more => ((), ⟨above, stages ++ more⟩) := by
  obtain ⟨name, _, _, visitor, next⟩ := r
  rw [layOut, listing, vetted_cons, fault?_child, StateT.run_bind, StateT.run_get, pure_bind]
  dsimp only
  split
  · rfl
  split
  · rfl
  · have rest := run_layOutAll (above ++ [name]) (stages ++ [⟨name, visitor, above ++ [name]⟩]) next
    have put (x : StateT Layout (Except ChainFault) Unit) (change : Layout → Layout) (l : Layout) :
        (modify change >>= fun _ => x).run l = x.run (change l) := rfl
    rw [put, StateT.run_bind, rest]
    cases vetted (listingAll (above ++ [name]) next) with
    | error f => rfl
    | ok more =>
      change Except.ok ((), Layout.mk (above ++ [name]).dropLast (stages ++ [_] ++ more)) =
        Except.ok ((), Layout.mk above (stages ++ _ :: more))
      rw [List.dropLast_concat, List.append_assoc, List.singleton_append]

theorem run_layOutAll (above : List String) (stages : List Stage) (rs : List Recipe) :
    (layOutAll rs).run ⟨above, stages⟩ = (vetted (listingAll above rs)).map fun more =>
      ((), ⟨above, stages ++ more⟩) := by
  cases rs with
  | nil =>
    rw [layOutAll, listingAll]
    exact congrArg (fun all => Except.ok ((), Layout.mk above all)) (List.append_nil stages).symm
  | cons r rs =>
    rw [layOutAll, listingAll, vetted_append, StateT.run_bind, run_layOut]
    cases vetted (listing above r) with
    | error f => rfl
    | ok first =>
      refine (run_layOutAll above (stages ++ first) rs).trans ?_
      cases vetted (listingAll above rs) with
      | error f => rfl
      | ok rest => exact congrArg (fun all => Except.ok ((), Layout.mk above all)) (List.append_assoc stages first rest)

end

mutual

theorem map_name_listing (above : List String) (r : Recipe) : (listing above r).map (·.name) = r.preorder := by
  obtain ⟨name, _, _, visitor, next⟩ := r
  rw [listing, Recipe.preorder, List.map_cons, map_name_listingAll]

theorem map_name_listingAll (above : List String) (rs : List Recipe) :
    (listingAll above rs).map (·.name) = Recipe.preorderAll rs := by
  cases rs with
  | nil => rfl
  | cons r rs => rw [listingAll, Recipe.preorderAll, List.map_append, map_name_listing, map_name_listingAll]

end

end Stage

theorem head?_toList_append {lead : String} {c : Char} (h : lead.toList.head? = some c) (rest : String) :
    (lead ++ rest).toList.head? = some c := by
  rw [String.toList_append, List.head?_append, h, Option.some_or]

theorem ChainFault.message_tooLong_ne_repeated (name : String) (chain : List String) (repeated : String) :
    (ChainFault.tooLong name).message ≠ (ChainFault.repeated chain repeated).message := by
  have deep : (ChainFault.tooLong name).message.toList.head? = some 'R' := by
    unfold message
    simp only [String.append_assoc]
    exact head?_toList_append (by decide) _
  have cyclic : (ChainFault.repeated chain repeated).message.toList.head? = some 'C' :=
    head?_toList_append (by decide) _
  intro h
  rw [h, cyclic] at deep
  cases deep

theorem Pipeline.build_eq (rs : List Recipe) (config : PipelineConfig) :
    build rs config = match (Stage.listingAll [] rs).findSome? Stage.fault? with
      | some f => .error (.config f.message)
      | none => .ok { recipes := rs, stages := Stage.listingAll [] rs, config } := by
  rw [build, Stage.run_layOutAll, Stage.vetted]
  cases (Stage.listingAll [] rs).findSome? Stage.fault? <;> rfl

/-- Where no name comes again below itself, only a long chain keeps a forest from becoming a pipeline. -/
theorem Pipeline.build_of_new {rs : List Recipe} (new : ∀ s ∈ Stage.listingAll [] rs, s.name ∉ s.chain.dropLast)
    (config : PipelineConfig) :
    (∃ s ∈ Stage.listingAll [] rs, Stage.maxChain < s.chain.length ∧
        build rs config = .error (.config (ChainFault.tooLong s.name).message)) ∨
      (∀ s ∈ Stage.listingAll [] rs, s.chain.length ≤ Stage.maxChain) ∧
        build rs config = .ok { recipes := rs, stages := Stage.listingAll [] rs, config } := by
  have only {s : Stage} (hs : s ∈ Stage.listingAll [] rs) :
      s.fault? = if Stage.maxChain < s.chain.length then some (.tooLong s.name) else none := by
    rw [Stage.fault?, if_neg (new s hs)]
  rw [build_eq]
  cases hf : (Stage.listingAll [] rs).findSome? Stage.fault? with
  | some f =>
    obtain ⟨s, hs, fault⟩ := List.exists_of_findSome?_eq_some hf
    rw [only hs] at fault
    split at fault
    · next long =>
      obtain rfl := Option.some.inj fault
      exact .inl ⟨s, hs, long, rfl⟩
    · cases fault
  | none =>
    refine .inr ⟨fun s hs => Nat.not_lt.1 fun long => ?_, rfl⟩
    have unfaulted := List.findSome?_eq_none_iff.1 hf s hs
    rw [only hs, if_pos long] at unfaulted
    cases unfaulted

end Emend
