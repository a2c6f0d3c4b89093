import Emend.Proofs.Pipeline.History
import Mathlib.Data.List.Count

/-! # The order of rounds

One round follows another only if nothing ended the run in between, and it starts with the results that the one
before left. `Invariant.follows` shows of every run that its rounds are such, with encounters that satisfy what is
shown of single ones.
-/

namespace Emend.Pipeline

/-- Rounds that the stages can come to, with encounters as `Met` says. -/
inductive Follows (config : PipelineConfig) (Met : Stage → Source → Encounter → Prop) :
    List Stage → List FileResult → List Round → Prop where
  | nil (stages : List Stage) (files : List FileResult) : Follows config Met stages files []
  | cons {stages : List Stage} {r : Round} {rounds : List Round}
      (met : ∀ t ∈ r.turns, Met r.stage t.file.after t.encounter)
      (last : r.goesOn config = false → rounds = [])
      (rest : Follows config Met stages r.results rounds) :
      Follows config Met (r.stage :: stages) r.files (r :: rounds)

/-- What holds of every session of a run, and of every encounter in one. -/
structure Invariant (p : Pipeline) (Holds : Session → Prop) (Met : Stage → Source → Encounter → Prop) : Prop where
  met : ∀ stage ∈ p.stages, ∀ source s, Holds s → Met stage source ((encounter p.config stage source).run s).1
  encounter : ∀ stage ∈ p.stages, ∀ source s, Holds s → Holds ((encounter p.config stage source).run s).2
  progress : ∀ info s, Holds s → Holds ((p.progress info).run s).2
  tell : ∀ failures s, Holds s → Holds (s.tell failures)

namespace Invariant

variable {p : Pipeline} {Holds : Session → Prop} {Met : Stage → Source → Encounter → Prop}
variable (inv : Invariant p Holds Met)
include inv

theorem meetEach (index : Nat) {stage : Stage} (hstage : stage ∈ p.stages) (files done : Nat)
    (rs : List FileResult) {s : Session} (hs : Holds s) :
    (∀ t ∈ ((p.meetEach index stage files done rs).run s).1, Met stage t.file.after t.encounter) ∧
      Holds ((p.meetEach index stage files done rs).run s).2 := by
  induction rs generalizing done s with
  | nil => exact ⟨fun t ht => absurd ht List.not_mem_nil, hs⟩
  | cons r rs ih =>
    have hmet := inv.met stage hstage r.after s hs
    obtain ⟨hrest, hlast⟩ := ih (done + 1) (inv.progress ⟨index, p.stages.length, stage.name, files, done + 1,
      r.before.path⟩ _ (inv.encounter stage hstage r.after s hs))
    refine ⟨fun t ht => ?_, hlast⟩
    obtain rfl | ht := List.mem_cons.1 ht
    · exact hmet
    · exact hrest t ht

theorem meetAll (index : Nat) {stage : Stage} (hstage : stage ∈ p.stages) (files : List FileResult) {s : Session}
    (hs : Holds s) :
    (∀ t ∈ ((p.meetAll index stage files).run s).1, Met stage t.file.after t.encounter) ∧
      Holds ((p.meetAll index stage files).run s).2 := by
  obtain ⟨met, holds⟩ := inv.meetEach index hstage files.length 0 (p.arrange index files) hs
  exact ⟨fun t ht => met t (p.mem_of_mem_restore ht), holds⟩

theorem follows_historyFrom (index : Nat) {stages : List Stage} (hstages : stages ⊆ p.stages)
    (files : List FileResult) {s : Session} (hs : Holds s) :
    Follows p.config Met stages files ((p.historyFrom index stages files).run s).1 ∧
      Holds ((p.historyFrom index stages files).run s).2 := by
  induction stages generalizing index files s with
  | nil => exact ⟨.nil [] files, hs⟩
  | cons stage stages ih =>
    obtain ⟨hstage, hbehind⟩ := List.cons_subset.1 hstages
    cases h : s.context.cancelled with
    | true =>
      rw [run_historyFrom_of_cancelled p index stage stages files h]
      exact ⟨.nil _ files, hs⟩
    | false =>
      obtain ⟨r, rfl, rfl, met⟩ := exists_round p index stage files s
      have turns := inv.meetAll index hstage r.files hs
      rw [met] at turns
      obtain ⟨hmet, hend⟩ := turns
      have hclosed : Holds (r.closed p.config) := inv.tell _ _ hend
      rw [run_historyFrom_of_round p index stages h met]
      cases hg : r.goesOn p.config with
      | true =>
        obtain ⟨hrest, hlast⟩ := ih (index + 1) hbehind r.results hclosed
        exact ⟨.cons hmet (fun hn => absurd hg (by simp [hn])) hrest, hlast⟩
      | false => exact ⟨.cons hmet (fun _ => rfl) (.nil _ _), hclosed⟩

theorem follows (sources : List Source) {s : Session} (hs : Holds s) :
    Follows p.config Met p.stages (sources.map FileResult.start) (p.rounds sources s) :=
  (inv.follows_historyFrom 0 (List.Subset.refl _) _ hs).1

end Invariant

/-- Every encounter of a run is one there can be. -/
theorem meets_invariant (p : Pipeline) : Invariant p (fun _ => True) (Meets p.config) where
  met stage _ source s _ := meets_encounter p.config stage source s
  encounter _ _ _ _ _ := trivial
  progress _ _ _ := trivial
  tell _ _ _ := trivial

theorem follows_rounds (p : Pipeline) (sources : List Source) (s : Session) :
    Follows p.config (Meets p.config) p.stages (sources.map FileResult.start) (p.rounds sources s) :=
  (meets_invariant p).follows sources trivial

theorem resultsAfter_append (files : List FileResult) (rounds : List Round) (r : Round) :
    resultsAfter files (rounds ++ [r]) = r.results := by
  induction rounds generalizing files with
  | nil => rfl
  | cons first rounds ih => exact ih first.results

theorem sessionAfter_append (config : PipelineConfig) (s : Session) (rounds : List Round) (r : Round) :
    sessionAfter config s (rounds ++ [r]) = r.closed config := by
  induction rounds generalizing s with
  | nil => rfl
  | cons first rounds ih => exact ih (first.closed config)

namespace Follows

variable {config : PipelineConfig} {Met : Stage → Source → Encounter → Prop} {stages : List Stage}
variable {files : List FileResult} {rounds : List Round}

theorem stages_isPrefix (h : Follows config Met stages files rounds) : rounds.map Round.stage <+: stages := by
  induction h with
  | nil => exact List.nil_prefix
  | cons _ _ _ ih => exact List.cons_prefix_cons.2 ⟨rfl, ih⟩

theorem length_le (h : Follows config Met stages files rounds) : rounds.length ≤ stages.length := by
  simpa using h.stages_isPrefix.length_le

theorem met (h : Follows config Met stages files rounds) {r : Round} (hr : r ∈ rounds) {t : Turn}
    (ht : t ∈ r.turns) : Met r.stage t.file.after t.encounter := by
  induction h with
  | nil => cases hr
  | cons met _ _ ih =>
    obtain rfl | hr := List.mem_cons.1 hr
    · exact met t ht
    · exact ih hr

theorem eq_last (h : Follows config Met stages files rounds) {k : Nat} {r : Round} (hr : rounds[k]? = some r)
    (hg : r.goesOn config = false) : k + 1 = rounds.length := by
  induction h generalizing k with
  | nil => cases hr
  | cons _ last _ ih =>
    cases k with
    | zero =>
      obtain rfl := Option.some.inj hr
      rw [last hg]
      rfl
    | succ k => exact congrArg Nat.succ (ih hr)

theorem goesOn_of_lt (h : Follows config Met stages files rounds) {k : Nat} {r : Round} (hr : rounds[k]? = some r)
    (hk : k + 1 < rounds.length) : r.goesOn config = true := by
  cases hg : r.goesOn config with
  | true => rfl
  | false => exact absurd (h.eq_last hr hg) (Nat.ne_of_lt hk)

/-- What a file's turn keeps holds of the file in every round, and when all is over. -/
theorem forall_files (h : Follows config Met stages files rounds) (Keeps : FileResult → Prop)
    (step : ∀ r ∈ rounds, ∀ t ∈ r.turns, Met r.stage t.file.after t.encounter → Keeps t.file → Keeps (r.amended t))
    (start : ∀ f ∈ files, Keeps f) :
    (∀ r ∈ rounds, ∀ t ∈ r.turns, Keeps t.file) ∧ ∀ f ∈ resultsAfter files rounds, Keeps f := by
  induction h with
  | nil => exact ⟨fun r hr => absurd hr List.not_mem_nil, start⟩
  | @cons stages r rounds met _ _ ih =>
    have here : ∀ t ∈ r.turns, Keeps t.file := fun t ht => start _ (List.mem_map_of_mem ht)
    -- the files of the next round are those that the turns of this one amended
    obtain ⟨later, after⟩ := ih (fun r hr => step r (List.mem_cons_of_mem _ hr)) fun f hf => by
      obtain ⟨t, ht, rfl⟩ := List.mem_map.1 hf
      exact step r List.mem_cons_self t ht (met t ht) (here t ht)
    refine ⟨fun r' hr => ?_, after⟩
    obtain rfl | hr := List.mem_cons.1 hr
    · exact here
    · exact later r' hr

theorem map_before (h : Follows config Met stages files rounds) :
    (∀ r ∈ rounds, r.files.map FileResult.before = files.map FileResult.before) ∧
      (resultsAfter files rounds).map FileResult.before = files.map FileResult.before := by
  induction h with
  | nil => exact ⟨fun r hr => absurd hr List.not_mem_nil, rfl⟩
  | @cons stages r rounds _ _ _ ih =>
    rw [r.map_before_results] at ih
    refine ⟨fun r' hr => ?_, ih.2⟩
    obtain rfl | hr := List.mem_cons.1 hr
    · rfl
    · exact ih.1 r' hr

theorem stage_mem (h : Follows config Met stages files rounds) {r : Round} (hr : r ∈ rounds) : r.stage ∈ stages :=
  h.stages_isPrefix.subset (List.mem_map_of_mem hr)

theorem eq_append_last (h : Follows config Met stages files rounds) {k : Nat} {r : Round} (hr : rounds[k]? = some r)
    (hk : k + 1 = rounds.length) : ∃ before, rounds = before ++ [r] ∧ ∀ q ∈ before, q.goesOn config = true := by
  have last : rounds.getLast? = some r := by
    rw [List.getLast?_eq_getElem?, ← hk]
    exact hr
  obtain ⟨before, rfl⟩ := List.getLast?_eq_some_iff.1 last
  refine ⟨before, rfl, fun q hq => ?_⟩
  obtain ⟨i, hi, rfl⟩ := List.mem_iff_getElem.1 hq
  have here : (before ++ [r])[i]? = some before[i] := by
    rw [List.getElem?_append_left hi, List.getElem?_eq_getElem hi]
  exact h.goesOn_of_lt here (by simpa using hi)

/-- Only the last round can have ended the run. -/
theorem findSome?_abort? (h : Follows config Met stages files rounds) {k : Nat} {r : Round}
    (hr : rounds[k]? = some r) (hk : k + 1 = rounds.length) :
    rounds.findSome? (·.abort? config) = r.abort? config := by
  obtain ⟨before, rfl, going⟩ := h.eq_append_last hr hk
  have none_before : before.findSome? (·.abort? config) = none :=
    List.findSome?_eq_none_iff.2 fun q hq => ((q.goesOn_iff config).1 (going q hq)).1
  rw [List.findSome?_append, none_before, Option.none_or, List.findSome?_singleton]

theorem completed_lt (h : Follows config Met stages files rounds) {r : Round} (hr : r ∈ rounds)
    (hc : r.cancelled = true) : completed rounds < stages.length := by
  refine Nat.lt_of_lt_of_le ?_ h.length_le
  rw [completed, List.countP_lt_length_iff]
  exact ⟨r, hr, by simp [hc]⟩

/-- With all stages completed there is one round a stage, and none was cut short. -/
theorem of_completed (h : Follows config Met stages files rounds) (hc : stages.length ≤ completed rounds) :
    rounds.map Round.stage = stages ∧ ∀ r ∈ rounds, r.cancelled = false := by
  have most : completed rounds ≤ rounds.length := List.countP_le_length
  have few := h.length_le
  constructor
  · exact h.stages_isPrefix.eq_of_length (by rw [List.length_map]; omega)
  · intro r hr
    have all : completed rounds = rounds.length := by omega
    simpa using List.countP_eq_length.1 all r hr

theorem files_eq (h : Follows config Met stages files rounds) {j : Nat} {r : Round} (hr : rounds[j]? = some r) :
    r.files = resultsAfter files (rounds.take j) := by
  induction h generalizing j with
  | nil => cases hr
  | cons _ _ _ ih =>
    cases j with
    | zero =>
      obtain rfl := Option.some.inj hr
      rfl
    | succ j => exact ih hr

theorem stage_eq (h : Follows config Met stages files rounds) {j : Nat} {r : Round} (hr : rounds[j]? = some r) :
    stages[j]? = some r.stage := by
  obtain ⟨later, rfl⟩ := h.stages_isPrefix
  have bound := (List.getElem?_eq_some_iff.1 hr).1
  rw [List.getElem?_append_left (by rwa [List.length_map]), List.getElem?_map, hr, Option.map_some]

end Follows

theorem resultsAfter_take_succ (files : List FileResult) {rounds : List Round} {j : Nat} {r : Round}
    (hr : rounds[j]? = some r) : resultsAfter files (rounds.take (j + 1)) = r.results := by
  rw [List.take_add_one, hr]
  exact resultsAfter_append files _ r

theorem sessionAfter_take_succ (config : PipelineConfig) (s : Session) {rounds : List Round} {j : Nat} {r : Round}
    (hr : rounds[j]? = some r) : sessionAfter config s (rounds.take (j + 1)) = r.closed config := by
  rw [List.take_add_one, hr]
  exact sessionAfter_append config s _ r

theorem map_before_start (sources : List Source) :
    (sources.map FileResult.start).map FileResult.before = sources := by
  rw [List.map_map]
  exact List.map_id _

@[simp] theorem before_conclude (f : FileResult) : (conclude f).before = f.before := by
  unfold conclude
  split <;> rfl

theorem map_before_concluded (p : Pipeline) (sources : List Source) (s : Session) :
    ((resultsAfter (sources.map FileResult.start) (rounds p sources s)).map conclude).map (·.before) = sources := by
  calc
    _ = (resultsAfter (sources.map FileResult.start) (rounds p sources s)).map FileResult.before := by
      rw [List.map_map]
      exact List.map_congr_left fun f _ => before_conclude f
    _ = (sources.map FileResult.start).map FileResult.before := (p.follows_rounds sources s).map_before.2
    _ = sources := map_before_start sources

section Lengths

variable {p : Pipeline} {sources : List Source} {s : Session} {r : Round}

theorem length_files (hr : r ∈ rounds p sources s) : r.files.length = sources.length := by
  have given := (p.follows_rounds sources s).map_before.1 r hr
  simpa using congrArg List.length given

theorem length_turns (hr : r ∈ rounds p sources s) : r.turns.length = sources.length := by
  rw [← length_files hr, Round.files, List.length_map]

end Lengths

/-- Neither a failure nor a stop comes of the file. -/
def Encounter.Harmless (stage : Stage) (source : Source) (e : Encounter) : Prop :=
  (e.outcome stage.name source).error? = none ∧ (e.outcome stage.name source).isCancelled = false

theorem Round.goesOn_of_harmless {r : Round} (h : ∀ t ∈ r.turns, t.encounter.Harmless r.stage t.file.after)
    (config : PipelineConfig) : r.goesOn config = true := by
  refine (r.goesOn_iff config).2 ⟨?_, List.any_eq_false.2 fun t ht => ?_⟩
  · cases ha : r.abort? config with
    | none => rfl
    | some e =>
      obtain ⟨t, ht, failed⟩ := List.mem_map.1 (mem_of_abort? config ha).2
      have unfailed : (r.outcome t).error? = none := (h t ht).1
      rw [failed] at unfailed
      cases unfailed
  · rw [show (r.outcome t).isCancelled = false from (h t ht).2]
    exact Bool.false_ne_true

section Harmless

variable {p : Pipeline} {Met : Stage → Source → Encounter → Prop}

/-- Where nothing fails and no one asks to stop, there is a round for every stage. -/
theorem Invariant.goesOn_historyFrom (inv : Invariant p (fun s => s.context.cancelled = false) Met)
    (harmless : ∀ stage source e, Met stage source e → e.Harmless stage source) (index : Nat) {stages : List Stage}
    (hstages : stages ⊆ p.stages) (files : List FileResult) {s : Session} (hs : s.context.cancelled = false) :
    ((p.historyFrom index stages files).run s).1.map Round.stage = stages ∧
      ∀ r ∈ ((p.historyFrom index stages files).run s).1, r.goesOn p.config = true := by
  induction stages generalizing index files s with
  | nil => exact ⟨rfl, fun r hr => absurd hr List.not_mem_nil⟩
  | cons stage stages ih =>
    obtain ⟨hstage, hbehind⟩ := List.cons_subset.1 hstages
    obtain ⟨r, rfl, rfl, met⟩ := exists_round p index stage files s
    obtain ⟨turns, hend⟩ := met ▸ inv.meetAll index hstage r.files hs
    have going : r.goesOn p.config = true := r.goesOn_of_harmless (fun t ht => harmless _ _ _ (turns t ht)) p.config
    obtain ⟨all, rest⟩ := ih (index + 1) hbehind r.results (s := r.closed p.config) (inv.tell _ _ hend)
    rw [run_historyFrom_of_round p index stages hs met, if_pos going]
    exact ⟨congrArg (r.stage :: ·) all, List.forall_mem_cons.2 ⟨going, rest⟩⟩

/-- Such a run comes to the results of its last round. -/
theorem Invariant.run_of_harmless (inv : Invariant p (fun s => s.context.cancelled = false) Met)
    (harmless : ∀ stage source e, Met stage source e → e.Harmless stage source) (sources : List Source) {s : Session}
    (hs : s.context.cancelled = false) :
    (rounds p sources s).map Round.stage = p.stages ∧ ∃ result s', (run p sources).run.run s = (.ok result, s') ∧
      result.results = (resultsAfter (sources.map FileResult.start) (rounds p sources s)).map conclude ∧
      result.cancelled = false := by
  obtain ⟨all, going⟩ : (rounds p sources s).map Round.stage = p.stages ∧
      ∀ r ∈ rounds p sources s, r.goesOn p.config = true :=
    inv.goesOn_historyFrom harmless 0 (List.Subset.refl _) _ hs
  have none_aborts : (rounds p sources s).findSome? (·.abort? p.config) = none :=
    List.findSome?_eq_none_iff.2 fun r hr => ((r.goesOn_iff p.config).1 (going r hr)).1
  have all_completed : completed (rounds p sources s) = p.stages.length := by
    rw [← all, List.length_map, completed, List.countP_eq_length]
    intro r hr
    rw [((r.goesOn_iff p.config).1 (going r hr)).2]
    rfl
  refine ⟨all, _, _, run_eq_rounds p sources s |>.trans (by rw [runEnd, none_aborts]), rfl, ?_⟩
  rw [all_completed]
  exact decide_eq_false (Nat.lt_irrefl _)

end Harmless

end Emend.Pipeline
