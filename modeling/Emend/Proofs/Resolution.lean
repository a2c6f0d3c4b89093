import Emend.Proofs.Pom
import Mathlib.Logic.Function.Iterate

/-! # How far references are resolved

A pass replaces the references it finds, and what stands in their place may hold references again. Eight passes reach
the end of every chain of at most eight references. A pass may also join pieces into a reference that none of them
holds; the chains are then those of the text after it, with as many passes as are left.
-/

namespace Emend.Pom

open Text

/-- The keys of the references that a pass finds in a text. -/
def keysIn (s : List Char) : List String :=
  match h₁ : breakOn? ['$', '{'] s with
  | none => []
  | some (_, inside) =>
    match h₂ : breakOn? ['}'] inside with
    | none => []
    | some (key, rest) =>
      have : rest.length < s.length :=
        Nat.lt_trans (length_lt_of_breakOn? h₂ (by simp)) (length_lt_of_breakOn? h₁ (by simp))
      String.ofList key :: keysIn rest
termination_by s.length

theorem keysIn_plain {s : List Char} (h : breakOn? ['$', '{'] s = none) : keysIn s = [] := by
  rw [keysIn]
  split
  · rfl
  next found => rw [h] at found; cases found

theorem keysIn_unclosed {s before inside : List Char} (h : breakOn? ['$', '{'] s = some (before, inside))
    (h' : breakOn? ['}'] inside = none) : keysIn s = [] := by
  rw [keysIn]
  split
  · rfl
  next found =>
    rw [h] at found
    cases found
    split
    · rfl
    next found => rw [h'] at found; cases found

theorem keysIn_reference {s before inside key rest : List Char} (h : breakOn? ['$', '{'] s = some (before, inside))
    (h' : breakOn? ['}'] inside = some (key, rest)) : keysIn s = String.ofList key :: keysIn rest := by
  rw [keysIn.eq_def s]
  split
  next missed => rw [h] at missed; cases missed
  next found =>
    rw [h] at found
    cases found
    split
    next missed => rw [h'] at missed; cases missed
    next found =>
      rw [h'] at found
      cases found
      rfl

variable {p : Pom}

/-- A text whose references all stay as written is not changed. -/
theorem substituteChars_eq_self {s : List Char} (h : ∀ key ∈ keysIn s, p.lookup? key = none) :
    p.substituteChars s = s := by
  fun_induction substituteChars p s with
  | case1 s opening => rfl
  | case2 s before inside opening closing => rfl
  | case3 s before inside opening key rest closing _ value ih =>
    rw [keysIn_reference opening closing] at h
    have unknown : p.lookup? (String.ofList key) = none := h _ List.mem_cons_self
    rw [ih fun other ho => h other (List.mem_cons_of_mem _ ho), eq_of_breakOn? opening, eq_of_breakOn? closing]
    simp [value, unknown]

theorem toList_substitute (value : String) : (p.substitute value).toList = p.substituteChars value.toList := by
  rw [substitute, String.toList_ofList]

theorem toList_resolve_go (n : Nat) (value : String) :
    (resolve.go p n value).toList = p.substituteChars^[n] value.toList := by
  induction n generalizing value with
  | zero => rfl
  | succ n ih =>
    rw [resolve.go]
    split
    next settled =>
      have fixed : p.substituteChars value.toList = value.toList := by rw [← toList_substitute, settled]
      exact (Function.iterate_fixed fixed _).symm
    next => rw [ih, toList_substitute, Function.iterate_succ_apply]

theorem toList_resolve (value : String) : (p.resolve value).toList = p.substituteChars^[maxPasses] value.toList :=
  toList_resolve_go maxPasses value

/-- A chain of references: the first stands in the text, each other one in the value of the one before. -/
inductive Chain (p : Pom) : List Char → List String → Prop where
  | nil {s : List Char} : Chain p s []
  | cons {s : List Char} {key value : String} {keys : List String} (found : key ∈ keysIn s)
      (known : p.lookup? key = some value) (rest : Chain p value.toList keys) : Chain p s (key :: keys)

/-- No chain comes back to the key that it starts from. -/
def Acyclic (p : Pom) : Prop :=
  ∀ key value keys, p.lookup? key = some value → Chain p value.toList keys → key ∉ keys

/-- Every known reference that a pass leaves in the text was in the value of one that it replaced. -/
def NoneJoined (p : Pom) (s : List Char) : Prop :=
  ∀ key ∈ keysIn (p.substituteChars s), (p.lookup? key).isSome = true →
    ∃ origin ∈ keysIn s, ∃ value ∈ p.lookup? origin, key ∈ keysIn value.toList

instance (s : List Char) : Decidable (p.NoneJoined s) :=
  inferInstanceAs (Decidable (∀ key ∈ keysIn (p.substituteChars s), (p.lookup? key).isSome = true →
    ∃ origin ∈ keysIn s, ∃ value ∈ p.lookup? origin, key ∈ keysIn value.toList))

theorem Chain.of_substituteChars {s : List Char} (h : p.NoneJoined s) {key : String} {keys : List String}
    (chain : Chain p (p.substituteChars s) (key :: keys)) : ∃ origin, Chain p s (origin :: key :: keys) := by
  obtain _ | ⟨found, known, rest⟩ := chain
  obtain ⟨origin, ho, value, hv, inside⟩ := h key found (known ▸ rfl)
  exact ⟨origin, .cons ho hv (.cons inside known rest)⟩

/-- A known reference that is left after so many passes ends a chain that is longer. -/
theorem exists_chain_of_mem {n : Nat} {s : List Char} (h : ∀ m < n, p.NoneJoined (p.substituteChars^[m] s))
    {key value : String} (found : key ∈ keysIn (p.substituteChars^[n] s)) (known : p.lookup? key = some value) :
    ∃ keys, keys.length = n + 1 ∧ Chain p s keys := by
  -- The first pass is taken off and not the last: the chain that the others leave grows at its front.
  induction n generalizing s with
  | zero => exact ⟨[key], rfl, .cons found known .nil⟩
  | succ n ih =>
    have later : ∀ m < n, p.NoneJoined (p.substituteChars^[m] (p.substituteChars s)) := by
      intro m hm
      rw [← Function.iterate_succ_apply]
      exact h (m + 1) (Nat.succ_lt_succ hm)
    rw [Function.iterate_succ_apply] at found
    obtain ⟨keys, length, chain⟩ := ih later found
    obtain ⟨first, keys, rfl⟩ := List.exists_cons_of_length_eq_add_one length
    obtain ⟨origin, chain⟩ := chain.of_substituteChars (h 0 (Nat.succ_pos n))
    exact ⟨origin :: first :: keys, congrArg Nat.succ length, chain⟩

/-- The rank falls from a key to the known ones in its value. -/
def FallsAlong (p : Pom) (rank : String → Nat) : Prop :=
  ∀ key value, p.lookup? key = some value → ∀ other ∈ keysIn value.toList, (p.lookup? other).isSome = true →
    rank other < rank key

theorem Chain.bounded {rank : String → Nat} (falls : p.FallsAlong rank) {s : List Char} {keys : List String}
    (chain : Chain p s keys) {bound : Nat}
    (below : ∀ key ∈ keysIn s, (p.lookup? key).isSome = true → rank key < bound) :
    keys.length ≤ bound ∧ ∀ key ∈ keys, rank key < bound := by
  induction chain generalizing bound with
  | nil => exact ⟨Nat.zero_le _, fun _ h => absurd h List.not_mem_nil⟩
  | @cons s key value keys found known rest ih =>
    obtain ⟨length, ranks⟩ := ih (falls key value known)
    have first : rank key < bound := below key found (known ▸ rfl)
    constructor
    · rw [List.length_cons]
      omega
    · intro other ho
      obtain rfl | ho := List.mem_cons.1 ho
      · exact first
      · exact Nat.lt_trans (ranks other ho) first

theorem acyclic_of_fallsAlong {rank : String → Nat} (falls : p.FallsAlong rank) : p.Acyclic := by
  intro key value keys known chain found
  exact Nat.lt_irrefl _ ((chain.bounded falls (falls key value known)).2 key found)

/-- Every reference that begins in the text ends in it. -/
inductive Closed : List Char → Prop where
  | plain {s : List Char} (none : breakOn? ['$', '{'] s = none) : Closed s
  | reference {s before inside key rest : List Char} (opening : breakOn? ['$', '{'] s = some (before, inside))
      (closing : breakOn? ['}'] inside = some (key, rest)) (closed : Closed rest) : Closed s

instance decidableClosed (s : List Char) : Decidable (Closed s) :=
  match opening : breakOn? ['$', '{'] s with
  | none => isTrue (.plain opening)
  | some (before, inside) =>
    match closing : breakOn? ['}'] inside with
    | none => isFalse fun closed => by
      cases closed with
      | plain missed => rw [opening] at missed; cases missed
      | reference found found' =>
        rw [opening] at found
        cases found
        rw [closing] at found'
        cases found'
    | some (key, rest) =>
      have : rest.length < s.length :=
        Nat.lt_trans (length_lt_of_breakOn? closing (by simp)) (length_lt_of_breakOn? opening (by simp))
      have := decidableClosed rest
      decidable_of_iff (Closed rest) ⟨.reference opening closing, fun closed => by
        cases closed with
        | plain missed => rw [opening] at missed; cases missed
        | reference found found' closed =>
          rw [opening] at found
          cases found
          rw [closing] at found'
          cases found'
          exact closed⟩
termination_by s.length

/-- No reference begins or ends in the text and reaches out of it. -/
structure SelfContained (s : List Char) : Prop where
  closed : Closed s
  nonempty : s ≠ []
  head : s.head? ≠ some '{'
  last : s.getLast? ≠ some '$'

instance (s : List Char) : Decidable (SelfContained s) :=
  decidable_of_iff (Closed s ∧ s ≠ [] ∧ s.head? ≠ some '{' ∧ s.getLast? ≠ some '$')
    ⟨fun ⟨closed, nonempty, head, last⟩ => ⟨closed, nonempty, head, last⟩,
      fun ⟨closed, nonempty, head, last⟩ => ⟨closed, nonempty, head, last⟩⟩

theorem breakOn?_append_of_none {u w : List Char} (h : breakOn? ['$', '{'] u = none)
    (seam : u.getLast? = some '$' → w.head? ≠ some '{') :
    breakOn? ['$', '{'] (u ++ w) = (breakOn? ['$', '{'] w).map fun (a, r) => (u ++ a, r) := by
  induction u with
  | nil => simp
  | cons c u ih =>
    -- a mark that begins here would lie in the first text, or stand across the seam
    have here : after? ['$', '{'] (c :: (u ++ w)) = none := by
      rw [after?_eq_none_iff]
      rintro r e
      obtain ⟨rfl, brace⟩ := List.cons.inj e
      cases u with
      | nil =>
        apply seam rfl
        rw [show w = '{' :: r from brace, List.head?_cons]
      | cons d u =>
        obtain ⟨rfl, -⟩ := List.cons.inj brace
        cases h
    have later : breakOn? ['$', '{'] u = none := by
      rw [breakOn?] at h
      split at h
      · cases h
      · exact Option.map_eq_none_iff.1 h
    have seam' : u.getLast? = some '$' → w.head? ≠ some '{' := by
      intro hu
      apply seam
      rw [List.getLast?_cons, hu]
      rfl
    rw [List.cons_append, breakOn?, here, ih later seam']
    cases breakOn? ['$', '{'] w <;> rfl

theorem breakOn?_append_of_some (pre : List Char) {z : Char} (hz : z ∉ pre) {u a r : List Char}
    (h : breakOn? (pre ++ [z]) u = some (a, r)) (w : List Char) :
    breakOn? (pre ++ [z]) (u ++ w) = some (a, r ++ w) := by
  have none := contains_eq_false_of_breakOn? (by simp) h
  rw [eq_of_breakOn? h, List.append_assoc, List.append_assoc]
  exact breakOn?_append_mark pre hz none

/-- Nothing is joined at a seam that no mark stands across. -/
theorem keysIn_append {u : List Char} (h : Closed u) {w : List Char}
    (seam : u.getLast? = some '$' → w.head? ≠ some '{') : keysIn (u ++ w) = keysIn u ++ keysIn w := by
  induction h with
  | @plain u none =>
    rw [keysIn_plain none, List.nil_append]
    have joined := breakOn?_append_of_none none seam
    cases opening : breakOn? ['$', '{'] w with
    | none =>
      rw [opening] at joined
      rw [keysIn_plain opening, keysIn_plain joined]
    | some broken =>
      obtain ⟨before, inside⟩ := broken
      rw [opening] at joined
      cases closing : breakOn? ['}'] inside with
      | none => rw [keysIn_unclosed opening closing, keysIn_unclosed joined closing]
      | some broken => rw [keysIn_reference opening closing, keysIn_reference joined closing]
  | @reference u before inside key rest opening closing _ ih =>
    have opening' := breakOn?_append_of_some ['$'] (by decide) opening w
    have closing' := breakOn?_append_of_some [] List.not_mem_nil closing w
    -- what is left behind the reference ends as the whole text does
    have seam' : rest.getLast? = some '$' → w.head? ≠ some '{' := by
      intro hr
      apply seam
      rw [eq_of_breakOn? opening, eq_of_breakOn? closing, ← List.append_assoc, ← List.append_assoc,
        ← List.append_assoc, List.getLast?_append, hr]
      rfl
    rw [keysIn_reference opening closing, keysIn_reference opening' closing', ih seam', List.cons_append]

theorem breakOn?_before {s before inside : List Char} (h : breakOn? ['$', '{'] s = some (before, inside)) :
    breakOn? ['$', '{'] before = none := by
  have none := contains_eq_false_of_breakOn? (by simp) h
  rwa [contains, Option.isSome_eq_false_iff, Option.isNone_iff_eq_none] at none

theorem breakOn?_brace {key : List Char} (h : '}' ∉ key) : breakOn? ['}'] (key ++ ['}']) = some (key, []) :=
  breakOn?_append_mark [] List.not_mem_nil (contains_singleton_eq_false_iff.2 h)

theorem selfContained_reference {key : List Char} (h : '}' ∉ key) :
    SelfContained ('$' :: '{' :: key ++ ['}']) where
  closed := .reference (breakOn?_of_after? (after?_append _ _)) (breakOn?_brace h) (.plain rfl)
  nonempty := List.cons_ne_nil _ _
  head := by simp
  last := by rw [List.getLast?_append]; simp

theorem keysIn_written {key : List Char} (h : '}' ∉ key) :
    keysIn ('$' :: '{' :: key ++ ['}']) = [String.ofList key] := by
  have opening : breakOn? ['$', '{'] ('$' :: '{' :: key ++ ['}']) = some ([], key ++ ['}']) :=
    breakOn?_of_after? (after?_append ['$', '{'] (key ++ ['}']))
  rw [keysIn_reference opening (breakOn?_brace h), keysIn_plain rfl]

/-- In every value references keep to themselves. -/
def Apart (p : Pom) : Prop := ∀ key value, p.lookup? key = some value → SelfContained value.toList

/-- What stands for a reference when a pass is over. -/
def leftFor (p : Pom) (key : String) : List String :=
  match p.lookup? key with
  | some value => keysIn value.toList
  | none => [key]

theorem keysIn_substituteChars (h : p.Apart) (s : List Char) :
    keysIn (p.substituteChars s) = (keysIn s).flatMap p.leftFor := by
  fun_induction substituteChars p s with
  | case1 s opening => rw [keysIn_plain opening, List.flatMap_nil]
  | case2 s before inside opening closing => rw [keysIn_unclosed opening closing, List.flatMap_nil]
  | case3 s before inside opening key rest closing _ value ih =>
    have brace : '}' ∉ key :=
      contains_singleton_eq_false_iff.1 (contains_eq_false_of_breakOn? (List.cons_ne_nil _ _) closing)
    -- What is put in is a value, or the reference as it was written: both keep to themselves.
    have inner : SelfContained value ∧ keysIn value = p.leftFor (String.ofList key) := by
      unfold leftFor
      cases known : p.lookup? (String.ofList key) with
      | none =>
        simp only [value, known]
        exact ⟨selfContained_reference brace, keysIn_written brace⟩
      | some v =>
        simp only [value, known]
        exact ⟨h _ v known, trivial⟩
    obtain ⟨contained, left⟩ := inner
    have front : before.getLast? = some '$' → (value ++ p.substituteChars rest).head? ≠ some '{' := by
      intro _
      rw [List.head?_append_of_ne_nil _ contained.nonempty]
      exact contained.head
    have plain := breakOn?_before opening
    rw [keysIn_reference opening closing, List.flatMap_cons, List.append_assoc, keysIn_append (.plain plain) front,
      keysIn_plain plain, List.nil_append, keysIn_append contained.closed fun last => absurd last contained.last,
      left, ih]

theorem noneJoined_of_apart (h : p.Apart) (s : List Char) : p.NoneJoined s := by
  intro key found known
  rw [keysIn_substituteChars h] at found
  obtain ⟨origin, ho, left⟩ := List.mem_flatMap.1 found
  unfold leftFor at left
  split at left
  next value hv => exact ⟨origin, ho, value, hv, left⟩
  next unknown =>
    obtain rfl := List.mem_singleton.1 left
    rw [unknown] at known
    cases known

theorem substitute_eq_self {value : String} (h : ∀ key ∈ keysIn value.toList, p.lookup? key = none) :
    p.substitute value = value := by
  rw [substitute, substituteChars_eq_self h, String.ofList_toList]

theorem resolve_eq_self {value : String} (h : p.substitute value = value) : p.resolve value = value := by
  rw [resolve, maxPasses, resolve.go]
  exact if_pos h

/-- If some of the passes are done, and from what they leave no chain is longer than the number of those that are left,
then a value is resolved to the end, where none of those joins pieces into a reference. -/
theorem resolve_settles {value : String} (done : Fin maxPasses)
    (short : ∀ keys, Chain p (p.substituteChars^[done] value.toList) keys → done + keys.length ≤ maxPasses)
    (unjoined : ∀ n < maxPasses, done ≤ n → p.NoneJoined (p.substituteChars^[n] value.toList)) :
    (∀ key ∈ keysIn (p.resolve value).toList, p.lookup? key = none) ∧
      p.substitute (p.resolve value) = p.resolve value ∧ p.resolve (p.resolve value) = p.resolve value := by
  have passes : maxPasses - done + done = maxPasses := Nat.sub_add_cancel (Nat.le_of_lt done.isLt)
  have unknown : ∀ key ∈ keysIn (p.resolve value).toList, p.lookup? key = none := by
    intro key found
    rw [toList_resolve, ← passes, Function.iterate_add_apply] at found
    have later : ∀ m < maxPasses - done,
      p.NoneJoined (p.substituteChars^[m] (p.substituteChars^[done] value.toList)) := by
      intro m hm
      rw [← Function.iterate_add_apply]
      exact unjoined (m + done) (by omega) (Nat.le_add_left _ m)
    cases known : p.lookup? key with
    | none => rfl
    | some v =>
      obtain ⟨keys, length, chain⟩ := exists_chain_of_mem later found known
      have := short keys chain
      omega
  have settled := substitute_eq_self unknown
  exact ⟨unknown, settled, resolve_eq_self settled⟩

def entries (p : Pom) : List (String × String) :=
  ([("project.groupId", p.coordinates.groupId), ("pom.groupId", p.coordinates.groupId),
    ("project.artifactId", some p.coordinates.artifactId), ("pom.artifactId", some p.coordinates.artifactId),
    ("project.version", p.coordinates.version), ("pom.version", p.coordinates.version),
    ("project.parent.version", p.parent.bind (·.version))] : List (String × Option String)).filterMap
      (fun (key, value?) => value?.map (key, ·)) ++ p.properties

theorem mem_entries {key value : String} (h : p.lookup? key = some value) : (key, value) ∈ p.entries := by
  unfold lookup? at h
  unfold entries
  split at h
  next e => obtain rfl | rfl := e <;> simp [h]
  split at h
  next e => obtain rfl | rfl := e <;> cases h <;> simp
  split at h
  next e => obtain rfl | rfl := e <;> simp [h]
  split at h
  next e =>
    subst e
    simp [h]
  · obtain ⟨before, behind, e, -⟩ := List.lookup_eq_some_iff.1 h
    simp [e]

theorem fallsAlong_of_entries {rank : String → Nat} (h : ∀ entry ∈ p.entries, ∀ other ∈ keysIn entry.2.toList,
    (p.lookup? other).isSome = true → rank other < rank entry.1) : p.FallsAlong rank :=
  fun _ _ known => h _ (mem_entries known)

theorem apart_of_entries (h : ∀ entry ∈ p.entries, SelfContained entry.2.toList) : p.Apart :=
  fun _ _ known => h _ (mem_entries known)

def app (properties : List (String × String)) : Pom where
  coordinates := { groupId := none, artifactId := "app", version := some "1.0" }
  parent := none
  packaging := none
  properties
  dependencies := []
  managedDependencies := []

def eightSteps : Pom := app [("p1", "${p2}"), ("p2", "${p3}"), ("p3", "${p4}"), ("p4", "${p5}"), ("p5", "${p6}"),
  ("p6", "${p7}"), ("p7", "${project.version}")]

/-- Seven references lead to the version, and the value of `x` begins a reference to the first one. -/
def sevenSteps : Pom := app [("x", "$"), ("p1", "${p2}"), ("p2", "${p3}"), ("p3", "${p4}"), ("p4", "${p5}"),
  ("p5", "${p6}"), ("p6", "${project.version}")]

theorem resolve_settles_eightSteps :
    ((∀ keys, Chain eightSteps "v${p1} ${missing}".toList keys → keys.length ≤ maxPasses) ∧
      eightSteps.resolve "v${p1} ${missing}" = "v1.0 ${missing}" ∧
      ∀ key ∈ keysIn (eightSteps.resolve "v${p1} ${missing}").toList, eightSteps.lookup? key = none) ∧
    ¬sevenSteps.NoneJoined "${x}{p1}".toList ∧ sevenSteps.resolve "${x}{p1}" = "1.0" ∧
      sevenSteps.resolve (sevenSteps.resolve "${x}{p1}") = sevenSteps.resolve "${x}{p1}" := by
  have falls : eightSteps.FallsAlong ["project.version", "p7", "p6", "p5", "p4", "p3", "p2", "p1"].idxOf := by
    apply fallsAlong_of_entries
    decide +kernel
  have apart : eightSteps.Apart := by
    apply apart_of_entries
    decide +kernel
  have short (keys : List String) (chain : Chain eightSteps "v${p1} ${missing}".toList keys) :
      keys.length ≤ maxPasses := by
    refine (chain.bounded falls ?_).1
    decide +kernel
  have falls' : sevenSteps.FallsAlong ["project.version", "p6", "p5", "p4", "p3", "p2", "p1"].idxOf := by
    apply fallsAlong_of_entries
    decide +kernel
  -- the pieces are joined in the first pass, and there are chains of seven from what it leaves
  have short' (keys : List String)
      (chain : Chain sevenSteps (sevenSteps.substituteChars^[1] "${x}{p1}".toList) keys) :
      1 + keys.length ≤ maxPasses := by
    have length : keys.length ≤ 7 := (chain.bounded falls' (by decide +kernel)).1
    exact Nat.add_le_add_left length 1
  have whole : ∀ n < maxPasses, 0 ≤ n →
    eightSteps.NoneJoined (eightSteps.substituteChars^[n] "v${p1} ${missing}".toList) :=
    fun n _ _ => noneJoined_of_apart apart _
  have later : ∀ n < maxPasses, 1 ≤ n → sevenSteps.NoneJoined (sevenSteps.substituteChars^[n] "${x}{p1}".toList) := by
    decide +kernel
  refine ⟨⟨short, by decide +kernel, (resolve_settles ⟨0, by decide⟩ (fun keys chain => ?_) whole).1⟩,
    by decide +kernel, by decide +kernel, (resolve_settles ⟨1, by decide⟩ short' later).2.2⟩
  exact (Nat.zero_add _).trans_le (short keys chain)

def nineSteps : Pom := app [("p1", "${p2}"), ("p2", "${p3}"), ("p3", "${p4}"), ("p4", "${p5}"), ("p5", "${p6}"),
  ("p6", "${p7}"), ("p7", "${p8}"), ("p8", "${project.version}")]

/-- Nothing refers to anything, but the value of `x` begins a reference that the text behind it ends. -/
def halfMark : Pom := app [("x", "$")]

/-- A chain of nine is one too long, and so are nine references that only come about one after another. -/
theorem resolve_stops_early :
    (nineSteps.Acyclic ∧ nineSteps.resolve "${p1}" = "${project.version}" ∧
      nineSteps.lookup? "project.version" = some "1.0") ∧
    halfMark.Acyclic ∧ halfMark.resolve "${x}{x}{x}{x}{x}{x}{x}{x}{x}" = "${x}" ∧ halfMark.lookup? "x" = some "$" := by
  have falls : nineSteps.FallsAlong ["project.version", "p8", "p7", "p6", "p5", "p4", "p3", "p2", "p1"].idxOf := by
    apply fallsAlong_of_entries
    decide +kernel
  have falls' : halfMark.FallsAlong fun _ => 0 := by
    apply fallsAlong_of_entries
    decide +kernel
  refine ⟨⟨acyclic_of_fallsAlong falls, ?_, rfl⟩, acyclic_of_fallsAlong falls', ?_, rfl⟩
  · decide +kernel
  · decide +kernel

end Emend.Pom
