import Emend.Proofs.Pipeline.Independence
import Emend.Proofs.Visit

/-! # The accounts of a run

Who failed in which stage is a table with a row for each stage that was started and a column for each file. The
context is told the table row by row, and a file's result holds its column (`run_accounts`).
-/

namespace Emend

instance : ReflSameAs Source := ⟨fun s => by cases s <;> simp [SameAs.same, FilePath.same]⟩

/-- While a run is going on no file counts as changed, and one that no recipe was applied to is as it was given. -/
def FileResult.IsUnderway (f : FileResult) : Prop := f.changed = false ∧ (f.applied = [] → f.after = f.before)

namespace Pipeline

/-- Neither the visitors nor whoever is told of the progress report failures to the context. -/
structure Quiet (p : Pipeline) : Prop where
  visitors : ∀ stage ∈ p.stages, ∀ v ∈ stage.visitor, ∀ source s,
    ((v.visit source).run.run s).2.context.failures = s.context.failures
  progress : ∀ info s, ((p.progress info).run s).2.context.failures = s.context.failures

def Round.failed (r : Round) : List (Option Failure) := r.turns.map r.failure?

def failureTable (p : Pipeline) (sources : List Source) (s : Session) : List (List (Option Failure)) :=
  (rounds p sources s).map Round.failed

/-- What the result of a run owes to the files that were given and to the table of failures. -/
structure Accounts (p : Pipeline) (sources : List Source) (table : List (List (Option Failure)))
    (result : RecipeRun) : Prop where
  inputs : result.results.map (·.before) = sources
  stages : result.stats.stages = p.stages.length
  cancelled : result.cancelled = true ↔ result.stats.stagesCompleted < result.stats.stages
  started : result.stats.stagesCompleted ≤ table.length ∧ table.length ≤ result.stats.stagesCompleted + 1 ∧
    table.length ≤ result.stats.stages
  unchanged : ∀ f ∈ result.results,
    (f.changed = false ↔ SameAs.same f.after f.before = true) ∧ (f.changed = false → f.after = f.before)
  changed : ∀ f ∈ result.results, f.changed = true → f.applied ≠ []
  applied : ∀ f ∈ result.results, f.applied.Sublist ((p.stages.take table.length).map Stage.name)
  files : ∀ row ∈ table, row.length = sources.length
  column : ∀ (i : Nat) (f : FileResult), result.results[i]? = some f →
    f.failures = table.filterMap fun row => row[i]?.join
  cell : ∀ (k i : Nat) (row : List (Option Failure)) (failure : Failure), table[k]? = some row →
    row[i]? = some (some failure) →
    p.stages[k]?.map Stage.name = failure.recipe ∧ sources[i]?.map Source.path = some failure.path
  changedFiles : result.stats.changedFiles = result.results.countP (·.changed)
  failedFiles : result.stats.failedFiles = result.results.countP (!·.failures.isEmpty)

section Context

variable {p : Pipeline} (quiet : Quiet p)
include quiet

theorem Quiet.guarded {stage : Stage} (hstage : stage ∈ p.stages) {v : SourceVisitor} (hv : stage.visitor = some v)
    {source : Source} {s s' : Session} {reply : Reply}
    (h : (guarded stage.name source.path (v.visit source)).run s = (reply, s')) :
    s'.context.failures = s.context.failures := by
  rw [run_guarded] at h
  obtain ⟨rfl, rfl⟩ := Prod.mk.inj h
  exact quiet.visitors stage hstage v hv source s

theorem Quiet.encounter {stage : Stage} (hstage : stage ∈ p.stages) (source : Source) (s : Session) :
    ((encounter p.config stage source).run s).2.context.failures = s.context.failures := by
  cases h : s.context.cancelled with
  | true => rw [run_encounter_late p.config stage source h]
  | false =>
    by_cases refused : ∀ v ∈ stage.visitor, v.accepts source = false
    · rw [run_encounter_passed p.config stage h refused]
    · simp only [Classical.not_forall, Bool.not_eq_false] at refused
      obtain ⟨v, visitor, accepted⟩ := refused
      obtain ⟨⟨first, s₁⟩, answered⟩ : ∃ x, (Pipeline.guarded stage.name source.path (v.visit source)).run s = x :=
        ⟨_, rfl⟩
      have kept := quiet.guarded hstage visitor answered
      cases hr : toRevisit? p.config source first with
      | none => rwa [run_encounter_visited p.config stage h visitor accepted answered hr]
      | some after =>
        obtain ⟨⟨second, s₂⟩, again⟩ : ∃ x, (Pipeline.guarded stage.name after.path (v.visit after)).run s₁ = x :=
          ⟨_, rfl⟩
        rw [run_encounter_revisited p.config stage h visitor accepted answered hr again]
        exact (quiet.guarded hstage visitor again).trans kept

theorem Quiet.meetEach (index : Nat) {stage : Stage} (hstage : stage ∈ p.stages) (files done : Nat)
    (rs : List FileResult) (s : Session) :
    ((meetEach p index stage files done rs).run s).2.context.failures = s.context.failures := by
  induction rs generalizing done s with
  | nil => rfl
  | cons r rs ih =>
    refine (ih (done + 1) _).trans ?_
    exact (quiet.progress _ _).trans (quiet.encounter hstage r.after s)

theorem Quiet.meetAll (index : Nat) {stage : Stage} (hstage : stage ∈ p.stages) (files : List FileResult)
    (s : Session) :
    ((meetAll p index stage files).run s).2.context.failures = s.context.failures :=
  quiet.meetEach index hstage files.length 0 (p.arrange index files) s

/-- The context gains what it is told at the end of each round, and nothing else. -/
theorem Quiet.historyFrom (index : Nat) {stages : List Stage} (hstages : stages ⊆ p.stages)
    (files : List FileResult) (s : Session) :
    ((historyFrom p index stages files).run s).2.context.failures =
      s.context.failures ++ ((historyFrom p index stages files).run s).1.flatMap (·.told p.config) := by
  induction stages generalizing index files s with
  | nil => exact (List.append_nil _).symm
  | cons stage stages ih =>
    obtain ⟨hstage, hbehind⟩ := List.cons_subset.1 hstages
    cases h : s.context.cancelled with
    | true =>
      rw [run_historyFrom_of_cancelled p index stage stages files h]
      exact (List.append_nil _).symm
    | false =>
      obtain ⟨r, rfl, rfl, met⟩ := exists_round p index stage files s
      have turns := quiet.meetAll index hstage r.files s
      rw [met] at turns
      have closed : (r.closed p.config).context.failures = s.context.failures ++ r.told p.config := by
        rw [Round.closed, Session.failures_tell, turns]
      rw [run_historyFrom_of_round p index stages h met]
      cases hg : r.goesOn p.config with
      | true =>
        have rest := ih (index + 1) hbehind r.results (r.closed p.config)
        rw [closed, List.append_assoc] at rest
        exact rest
      | false => simpa using closed

end Context

section Table

variable {config : PipelineConfig} {Met : Stage → Source → Encounter → Prop} {stages : List Stage}
variable {files : List FileResult} {rounds : List Round}

/-- A round that did not end the run told the context all of its failures. -/
theorem Round.told_of_abort?_eq_none {r : Round} (h : r.abort? config = none) :
    r.told config = r.failed.filterMap id := by
  rw [Round.told, Pipeline.told, Round.entries, List.filterMap_map, Round.failed, List.filterMap_map]
  split
  · next failFast =>
    -- with `failFast` a round without an error has no failures at all
    rw [Round.abort?, Pipeline.abort?, if_pos failFast, List.head?_eq_none_iff, List.filterMap_map,
      List.filterMap_eq_nil_iff] at h
    have no_failures : r.turns.filterMap r.failure? = [] :=
      List.filterMap_eq_nil_iff.2 fun t ht => Option.map_eq_none_iff.2 (h t ht)
    exact (congrArg (List.take 1) no_failures).trans no_failures.symm
  · rfl

/-- What the turns of the file at `i` add up to, round by round. -/
theorem Follows.at_index (h : Follows config Met stages files rounds) {i : Nat}
    {P : FileResult → List Round → FileResult → Prop} (nil : ∀ f, P f [] f)
    (cons : ∀ (r : Round) rounds t f, r.turns[i]? = some t → P (r.amended t) rounds f →
      P t.file (r :: rounds) f)
    {before after : FileResult} (hbefore : files[i]? = some before)
    (hafter : (resultsAfter files rounds)[i]? = some after) : P before rounds after := by
  induction h generalizing before with
  | nil =>
    obtain rfl := Option.some.inj (hbefore.symm.trans hafter)
    exact nil before
  | @cons stages r rounds _ _ _ ih =>
    rw [Round.files, List.getElem?_map, Option.map_eq_some_iff] at hbefore
    obtain ⟨t, ht, rfl⟩ := hbefore
    refine cons r rounds t after ht (ih ?_ hafter)
    rw [Round.results, List.getElem?_map, ht, Option.map_some]

theorem Follows.failures_eq (h : Follows config Met stages files rounds) {i : Nat} {before after : FileResult}
    (hbefore : files[i]? = some before) (hafter : (resultsAfter files rounds)[i]? = some after) :
    after.failures = before.failures ++ (rounds.map Round.failed).filterMap fun row => row[i]?.join := by
  refine h.at_index (P := fun f rounds g =>
    g.failures = f.failures ++ (rounds.map Round.failed).filterMap fun row => row[i]?.join)
    (fun f => (List.append_nil _).symm) (fun r rounds t f ht ih => ?_) hbefore hafter
  have cell : r.failed[i]?.join = r.failure? t := by
    rw [Round.failed, List.getElem?_map, ht]
    rfl
  rw [ih, Round.amended, FileResult.failures_amend, List.append_assoc, List.map_cons, List.filterMap_cons, cell,
    Round.failure?]
  cases t.file.failure? r.stage.name (r.outcome t) <;> rfl

theorem applied_amended (r : Round) (t : Turn) :
    (r.amended t).applied.Sublist (t.file.applied ++ [r.stage.name]) := by
  unfold Round.amended
  cases r.outcome t with
  | changed after => exact List.Sublist.refl _
  | _ => exact List.sublist_append_left _ _

theorem Follows.applied_sublist (h : Follows config Met stages files rounds) {i : Nat} {before after : FileResult}
    (hbefore : files[i]? = some before) (hafter : (resultsAfter files rounds)[i]? = some after) :
    after.applied.Sublist (before.applied ++ rounds.map (·.stage.name)) := by
  refine h.at_index (P := fun f rounds g => g.applied.Sublist (f.applied ++ rounds.map (·.stage.name)))
    (fun f => List.sublist_append_left _ _) (fun r rounds t f _ ih => ih.trans ?_) hbefore hafter
  rw [List.map_cons, ← List.singleton_append, ← List.append_assoc]
  exact (applied_amended r t).append_right _

theorem isUnderway_amended (r : Round) {t : Turn} (h : t.file.IsUnderway) : (r.amended t).IsUnderway := by
  unfold Round.amended
  cases r.outcome t with
  | changed after => exact ⟨h.1, fun hn => absurd hn (by simp [FileResult.amend])⟩
  | _ => exact h

/-- Only the last round can have been cut short. -/
theorem Follows.length_le_completed (h : Follows config Met stages files rounds)
    (aborts : ∀ r ∈ rounds, r.abort? config = none) : rounds.length ≤ completed rounds + 1 := by
  induction h with
  | nil => exact Nat.zero_le _
  | @cons stages r rounds _ last _ ih =>
    have none_aborts := List.forall_mem_cons.1 aborts
    cases hc : r.cancelled with
    | true =>
      rw [last (by simp [Round.goesOn, hc])]
      exact Nat.le_add_left _ _
    | false =>
      have counted : completed (r :: rounds) = completed rounds + 1 := by simp [completed, hc]
      rw [counted, List.length_cons]
      exact Nat.succ_le_succ (ih none_aborts.2)

/-- What is known of a file when the rounds are over. -/
theorem Follows.of_start {sources : List Source} (h : Follows config Met stages (sources.map FileResult.start) rounds)
    {i : Nat} {f : FileResult} (hf : (resultsAfter (sources.map FileResult.start) rounds)[i]? = some f) :
    f.IsUnderway ∧ f.applied.Sublist (rounds.map (·.stage.name)) ∧
      f.failures = (rounds.map Round.failed).filterMap fun row => row[i]?.join := by
  have underway := (h.forall_files FileResult.IsUnderway (fun r _ t _ _ ht => isUnderway_amended r ht) fun f hf => by
    obtain ⟨source, -, rfl⟩ := List.mem_map.1 hf
    exact ⟨rfl, fun _ => rfl⟩).2
  have hsource : sources[i]? = some f.before := by
    rw [← map_before_start sources, ← h.map_before.2, List.getElem?_map, hf, Option.map_some]
  have hbefore : (sources.map FileResult.start)[i]? = some (.start f.before) := by
    rw [List.getElem?_map, hsource, Option.map_some]
  exact ⟨underway f (List.mem_of_getElem? hf), h.applied_sublist hbefore hf, h.failures_eq hbefore hf⟩

end Table

@[simp] theorem applied_conclude (f : FileResult) : (conclude f).applied = f.applied := by
  unfold conclude
  split <;> rfl

@[simp] theorem failures_conclude (f : FileResult) : (conclude f).failures = f.failures := by
  unfold conclude
  split <;> rfl

theorem conclude_unchanged {f : FileResult} (h : f.changed = false) :
    ((conclude f).changed = false ↔ SameAs.same (conclude f).after (conclude f).before = true) ∧
      ((conclude f).changed = false → (conclude f).after = (conclude f).before) := by
  unfold conclude
  split
  · exact ⟨iff_of_true h (ReflSameAs.same_self _), fun _ => rfl⟩
  · next hs => exact ⟨iff_of_false (by simp) hs, fun hn => absurd hn (by simp)⟩

theorem applied_ne_nil_of_changed_conclude {f : FileResult} (h : f.IsUnderway) (hc : (conclude f).changed = true) :
    (conclude f).applied ≠ [] := by
  unfold conclude at *
  split at hc
  · rw [h.1] at hc
    cases hc
  · next hs =>
    intro hn
    rw [if_neg hs] at hn
    rw [h.2 hn] at hs
    exact hs (ReflSameAs.same_self _)

section Rounds

variable {p : Pipeline} {sources : List Source} {s s' : Session} {result : RecipeRun}

theorem abort?_eq_none_of_run_eq_ok (h : (run p sources).run.run s = (.ok result, s')) :
    ∀ r ∈ rounds p sources s, r.abort? p.config = none := by
  rw [run_eq_rounds, runEnd] at h
  cases ha : (rounds p sources s).findSome? (·.abort? p.config) with
  | some e =>
    rw [ha] at h
    cases h
  | none => exact List.findSome?_eq_none_iff.1 ha

/-- In the table a failure names the stage of its row and the file of its column. -/
theorem recipe_and_path_of_failed {k i : Nat} {r : Round} {failure : Failure} (hr : (rounds p sources s)[k]? = some r)
    (hf : r.failed[i]? = some (some failure)) :
    p.stages[k]?.map Stage.name = failure.recipe ∧ sources[i]?.map Source.path = some failure.path := by
  have follows := p.follows_rounds sources s
  rw [Round.failed, List.getElem?_map, Option.map_eq_some_iff] at hf
  obtain ⟨t, ht, hf⟩ := hf
  obtain ⟨e, -, rfl⟩ := Option.map_eq_some_iff.1 hf
  constructor
  · have hstage : ((rounds p sources s).map Round.stage)[k]? = some r.stage := by
      rw [List.getElem?_map, hr, Option.map_some]
    obtain ⟨later, hlater⟩ := follows.stages_isPrefix
    rw [← hlater, List.getElem?_append_left (List.getElem?_eq_some_iff.1 hstage).1, hstage]
    rfl
  · have hbefore : (r.files.map FileResult.before)[i]? = some t.file.before := by
      rw [Round.files, List.getElem?_map, List.getElem?_map, ht]
      rfl
    rw [(follows.map_before).1 r (List.mem_of_getElem? hr), map_before_start] at hbefore
    rw [hbefore]
    rfl

/-- The result of a run keeps the accounts, and with visitors that report nothing themselves the context gains the
failures of the table, row by row. -/
theorem run_accounts (h : (run p sources).run.run s = (.ok result, s')) :
    Accounts p sources (failureTable p sources s) result ∧
      (Quiet p →
        s'.context.failures = s.context.failures ++ (failureTable p sources s).flatMap (·.filterMap id)) := by
  have follows := p.follows_rounds sources s
  have aborts := abort?_eq_none_of_run_eq_ok h
  have none_aborts : (rounds p sources s).findSome? (·.abort? p.config) = none := List.findSome?_eq_none_iff.2 aborts
  rw [run_eq_rounds, runEnd, none_aborts] at h
  obtain ⟨hresult, rfl⟩ := Prod.mk.inj h
  obtain rfl := Except.ok.inj hresult
  have files : ∀ f ∈ (resultsAfter (sources.map FileResult.start) (rounds p sources s)).map conclude,
      ∃ g, conclude g = f ∧ g.IsUnderway ∧ g.applied.Sublist ((rounds p sources s).map (·.stage.name)) := by
    intro f hf
    obtain ⟨g, hg, rfl⟩ := List.mem_map.1 hf
    obtain ⟨i, hi⟩ := List.mem_iff_getElem?.1 hg
    obtain ⟨underway, applied, -⟩ := follows.of_start hi
    exact ⟨g, rfl, underway, applied⟩
  constructor
  · constructor
    case inputs =>
      rw [List.map_map]
      refine Eq.trans ?_ (follows.map_before.2.trans (map_before_start sources))
      exact List.map_congr_left fun f _ => before_conclude f
    case stages => rfl
    case cancelled => exact decide_eq_true_iff
    case started =>
      rw [failureTable, List.length_map]
      exact ⟨List.countP_le_length, follows.length_le_completed aborts, follows.length_le⟩
    case unchanged =>
      intro f hf
      obtain ⟨g, rfl, underway, -⟩ := files f hf
      exact conclude_unchanged underway.1
    case changed =>
      intro f hf
      obtain ⟨g, rfl, underway, -⟩ := files f hf
      exact applied_ne_nil_of_changed_conclude underway
    case applied =>
      intro f hf
      obtain ⟨g, rfl, -, applied⟩ := files f hf
      have started := List.prefix_iff_eq_take.1 follows.stages_isPrefix
      rw [List.length_map] at started
      rwa [failureTable, List.length_map, ← started, List.map_map, applied_conclude]
    case files =>
      intro row hrow
      obtain ⟨r, hr, rfl⟩ := List.mem_map.1 hrow
      have same_length := congrArg List.length (follows.map_before.1 r hr)
      simpa [Round.failed, Round.files] using same_length
    case column =>
      intro i f hf
      rw [List.getElem?_map, Option.map_eq_some_iff] at hf
      obtain ⟨g, hg, rfl⟩ := hf
      rw [failures_conclude]
      exact (follows.of_start hg).2.2
    case cell =>
      intro k i row failure hrow hf
      rw [failureTable, List.getElem?_map, Option.map_eq_some_iff] at hrow
      obtain ⟨r, hr, rfl⟩ := hrow
      exact recipe_and_path_of_failed hr hf
    case changedFiles => rfl
    case failedFiles => rfl
  · intro quiet
    have gained := quiet.historyFrom 0 (List.Subset.refl _) (sources.map FileResult.start) s
    rw [session_historyFrom] at gained
    rw [failureTable, List.flatMap_map]
    refine gained.trans (congrArg _ ?_)
    exact List.flatMap_congr fun r hr => Round.told_of_abort?_eq_none (aborts r hr)

end Rounds

theorem quiet_emptyThenRead : Quiet emptyThenRead where
  visitors stage hstage v hv source s := by
    obtain rfl | hstage := List.mem_cons.1 hstage
    · obtain rfl := Option.some.inj hv
      rfl
    · obtain rfl := List.mem_singleton.1 hstage
      obtain rfl := Option.some.inj hv
      rfl
  progress _ _ := rfl

/-- The first stage changes one text and fails on the other, the second one crashes on both. -/
theorem run_accounts_emptyThenRead :
    let sources : List Source := [.text ⟨.none, ⟨"a.txt"⟩, [], "a"⟩, .text ⟨.none, ⟨"b.txt"⟩, [], ""⟩]
    Quiet emptyThenRead ∧ ∃ result s', (emptyThenRead.run sources).run.run {} = (.ok result, s') ∧
      Accounts emptyThenRead sources (failureTable emptyThenRead sources {}) result ∧
      s'.context.failures.map (·.path.text) = ["b.txt", "a.txt", "b.txt"] ∧
      result.results.map (·.changed) = [true, false] := by
  intro sources
  obtain ⟨accounts, gained⟩ := @run_accounts emptyThenRead sources {} _ _ rfl
  exact ⟨quiet_emptyThenRead, _, _, rfl, accounts, congrArg (List.map (·.path.text)) (gained quiet_emptyThenRead), rfl⟩

end Pipeline
end Emend
