import Emend.Proofs.Pipeline.Rounds
import Mathlib.Algebra.BigOperators.Group.List.Basic

/-! # Files in a run do not touch each other

Where every visitor answers by the file alone and nothing asks the run to stop, each file fares in a batch as it does
by itself: the stages over the whole batch come to the same as all stages over one file after the other
(`run_batch_eq_alone`).
-/

namespace Emend

/-- What the visitor answers is a function of the file, and it lets the run go on. -/
structure SourceVisitor.Decides (v : SourceVisitor) (reply : Source → Except Abort (Visit Source)) : Prop where
  answers : ∀ source s, s.context.cancelled = false → ((v.visit source).run.run s).1 = reply source
  going : ∀ source s, s.context.cancelled = false → ((v.visit source).run.run s).2.context.cancelled = false
  completes : ∀ source, reply source ≠ .error (.error .cancelled)

namespace Pipeline

/-- Every visitor answers by the file alone, and no one asks the run to stop. -/
structure Undisturbed (p : Pipeline) : Prop where
  visitors : ∀ stage ∈ p.stages, ∀ v ∈ stage.visitor, ∃ reply, v.Decides reply
  progress : ∀ info s, s.context.cancelled = false → ((p.progress info).run s).2.context.cancelled = false

/-- How a file meets a stage if it is the only one. -/
def meetsAlone (config : PipelineConfig) (stage : Stage) (source : Source) : Encounter :=
  ((encounter config stage source).run {}).1

theorem answer_ne_cancelled {recipe : String} {path : FilePath} {r : Except Abort (Visit Source)}
    (h : r ≠ .error (.error .cancelled)) : answer recipe path r ≠ .error .cancelled := by
  match r with
  | .ok v => simp [answer]
  | .error (.error e) => simpa [answer] using h
  | .error (.crash (some m)) => simp [answer]
  | .error (.crash none) => simp [answer]

section Decided

variable {config : PipelineConfig} {stage : Stage} {source : Source} {s : Session}

theorem run_guarded_of_decides {v : SourceVisitor} {reply : Source → Except Abort (Visit Source)}
    (h : v.Decides reply) (hs : s.context.cancelled = false) (recipe : String) :
    ∃ s', (guarded recipe source.path (v.visit source)).run s = (answer recipe source.path (reply source), s') ∧
      s'.context.cancelled = false :=
  ⟨_, (run_guarded ..).trans (by rw [h.answers source s hs]), h.going source s hs⟩

/-- The encounter is the same in every session that is not asked to stop. -/
theorem run_encounter_of_decides (config : PipelineConfig) (source : Source)
    (h : ∀ v ∈ stage.visitor, ∃ reply, v.Decides reply) :
    ∃ e : Encounter, (e.outcome stage.name source).isCancelled = false ∧
      ∀ s : Session, s.context.cancelled = false →
        ∃ s', (encounter config stage source).run s = (e, s') ∧ s'.context.cancelled = false := by
  by_cases refused : ∀ v ∈ stage.visitor, v.accepts source = false
  · exact ⟨.passed, rfl, fun s hs => ⟨s, run_encounter_passed config stage hs refused, hs⟩⟩
  simp only [Classical.not_forall, Bool.not_eq_false] at refused
  obtain ⟨v, visitor, accepted⟩ := refused
  obtain ⟨reply, decides⟩ := h v visitor
  have completes : answer stage.name source.path (reply source) ≠ .error .cancelled :=
    answer_ne_cancelled (decides.completes source)
  have outcome := Encounter.isCancelled_outcome_visited stage.name source completes
  cases hr : toRevisit? config source (answer stage.name source.path (reply source)) with
  | none =>
    refine ⟨.visited _ none, outcome none, fun s hs => ?_⟩
    obtain ⟨s₁, first, h₁⟩ := run_guarded_of_decides decides hs stage.name
    exact ⟨s₁, run_encounter_visited config stage hs visitor accepted first hr, h₁⟩
  | some after =>
    refine ⟨.visited _ (some (answer stage.name after.path (reply after))), outcome _, fun s hs => ?_⟩
    obtain ⟨s₁, first, h₁⟩ := run_guarded_of_decides decides hs stage.name
    obtain ⟨s₂, second, h₂⟩ := run_guarded_of_decides decides h₁ stage.name
    exact ⟨s₂, run_encounter_revisited config stage hs visitor accepted first hr second, h₂⟩

theorem run_encounter_eq_meetsAlone (config : PipelineConfig) (source : Source)
    (h : ∀ v ∈ stage.visitor, ∃ reply, v.Decides reply) (hs : s.context.cancelled = false) :
    ((encounter config stage source).run s).1 = meetsAlone config stage source ∧
      ((encounter config stage source).run s).2.context.cancelled = false ∧
      ((meetsAlone config stage source).outcome stage.name source).isCancelled = false := by
  obtain ⟨e, going, always⟩ := run_encounter_of_decides config source h
  obtain ⟨_, alone, _⟩ := always {} rfl
  obtain ⟨s', met, hs'⟩ := always s hs
  rw [meetsAlone, alone, met]
  exact ⟨rfl, hs', going⟩

end Decided

theorem Undisturbed.invariant {p : Pipeline} (h : Undisturbed p) :
    Invariant p (fun s => s.context.cancelled = false) fun stage source e => e = meetsAlone p.config stage source where
  met stage hstage _ _ hs := (run_encounter_eq_meetsAlone p.config _ (h.visitors stage hstage) hs).1
  encounter stage hstage _ _ hs := (run_encounter_eq_meetsAlone p.config _ (h.visitors stage hstage) hs).2.1
  progress := h.progress
  tell failures s hs := (s.cancelled_tell failures).trans hs

section Alone

variable (config : PipelineConfig)

def stepAlone (stage : Stage) (f : FileResult) : FileResult :=
  f.amend stage.name ((meetsAlone config stage f.after).outcome stage.name f.after)

def throughAlone : List Stage → FileResult → FileResult
  | [], f => f
  | stage :: stages, f => throughAlone stages (stepAlone config stage f)

def visitsAlone : List Stage → FileResult → Nat
  | [], _ => 0
  | stage :: stages, f =>
    (if ((meetsAlone config stage f.after).outcome stage.name f.after).isVisit then 1 else 0) +
      visitsAlone stages (stepAlone config stage f)

end Alone

theorem countP_eq_sum_singletons {α : Type} (test : α → Bool) (as : List α) :
    as.countP test = (as.map fun a => [a].countP test).sum := by
  induction as with
  | nil => rfl
  | cons a as ih =>
    rw [List.map_cons, List.sum_cons, ← ih, ← List.countP_append]
    rfl

section Round

variable {config : PipelineConfig} {r : Round}

theorem results_eq_map_stepAlone (h : ∀ t ∈ r.turns, t.encounter = meetsAlone config r.stage t.file.after) :
    r.results = r.files.map (stepAlone config r.stage) := by
  rw [Round.results, Round.files, List.map_map]
  refine List.map_congr_left fun t ht => ?_
  rw [Round.amended, Round.outcome, h t ht]
  rfl

theorem visits_add_sum (h : ∀ t ∈ r.turns, t.encounter = meetsAlone config r.stage t.file.after)
    (stages : List Stage) :
    r.visits + (r.results.map (visitsAlone config stages)).sum =
      (r.files.map (visitsAlone config (r.stage :: stages))).sum := by
  rw [results_eq_map_stepAlone h, Round.visits, countP_eq_sum_singletons, Round.files, List.map_map, List.map_map,
    List.map_map, ← List.sum_map_add]
  refine congrArg List.sum (List.map_congr_left fun t ht => ?_)
  simp only [Function.comp_apply, Round.outcome, h t ht, List.countP_singleton]
  rfl

end Round

/-- What the rounds of an undisturbed run come to, file by file. -/
theorem Undisturbed.historyFrom {p : Pipeline} (h : Undisturbed p) (hf : p.config.failFast = false) (index : Nat)
    {stages : List Stage} (hstages : stages ⊆ p.stages) (files : List FileResult) {s : Session}
    (hs : s.context.cancelled = false) :
    let rounds := ((p.historyFrom index stages files).run s).1
    resultsAfter files rounds = files.map (throughAlone p.config stages) ∧
      (rounds.map Round.visits).sum = (files.map (visitsAlone p.config stages)).sum ∧
      completed rounds = stages.length := by
  induction stages generalizing index files s with
  | nil => exact ⟨(List.map_id _).symm, (List.sum_eq_zero fun n hn => by
      obtain ⟨f, _, rfl⟩ := List.mem_map.1 hn
      rfl).symm, rfl⟩
  | cons stage stages ih =>
    obtain ⟨hstage, hbehind⟩ := List.cons_subset.1 hstages
    obtain ⟨r, rfl, rfl, met⟩ := exists_round p index stage files s
    obtain ⟨alone, hend⟩ := met ▸ h.invariant.meetAll index hstage r.files hs
    -- no turn of the round is cancelled, so the next round starts with what each file came to by itself
    have going : r.cancelled = false := by
      refine List.any_eq_false.2 fun t ht => ?_
      obtain ⟨_, _, decided⟩ := run_encounter_eq_meetsAlone p.config t.file.after (h.visitors r.stage hstage) hs
      simp [Round.outcome, alone t ht, decided]
    have hg : r.goesOn p.config = true := (r.goesOn_iff p.config).2 ⟨abort?_of_not_failFast p.config hf _, going⟩
    rw [run_historyFrom_of_round p index stages hs met, if_pos hg]
    obtain ⟨results, visits, all⟩ := ih (index + 1) hbehind r.results (s := r.closed p.config)
      ((Session.cancelled_tell _ _).trans hend)
    refine ⟨?_, ?_, ?_⟩
    · exact results.trans (by rw [results_eq_map_stepAlone alone, List.map_map]; rfl)
    · rw [← visits_add_sum alone, ← visits]
      rfl
    · rw [List.length_cons, ← all]
      simp [completed, going]

def resultAlone (p : Pipeline) (source : Source) : FileResult :=
  conclude (throughAlone p.config p.stages (.start source))

/-- The numbers of a run over files that are each run by themselves. -/
def statsAlone (p : Pipeline) (sources : List Source) : RunStats where
  files := sources.length
  stages := p.stages.length
  stagesCompleted := p.stages.length
  visits := (sources.map fun source => visitsAlone p.config p.stages (.start source)).sum
  changedFiles := (sources.map (resultAlone p)).countP (·.changed)
  failedFiles := (sources.map (resultAlone p)).countP (!·.failures.isEmpty)

theorem Undisturbed.run_eq {p : Pipeline} (h : Undisturbed p) (hf : p.config.failFast = false)
    (sources : List Source) {s : Session} (hs : s.context.cancelled = false) :
    ((run p sources).run.run s).1 = .ok ⟨sources.map (resultAlone p), statsAlone p sources, false⟩ := by
  obtain ⟨results, visits, all⟩ :=
    h.historyFrom hf 0 (List.Subset.refl _) (sources.map FileResult.start) hs
  have none_aborts : (rounds p sources s).findSome? (·.abort? p.config) = none :=
    List.findSome?_eq_none_iff.2 fun r _ => abort?_of_not_failFast p.config hf _
  rw [run_eq_rounds, runEnd, none_aborts]
  simp only [rounds, results, visits, all, List.map_map, Nat.lt_irrefl, decide_false]
  rfl

/-- In whatever orders the files are visited, the run comes to the same. -/
theorem Undisturbed.run_withSchedule {p : Pipeline} (h : Undisturbed p) (hf : p.config.failFast = false)
    (schedule : Nat → Schedule) (sources : List Source) {s : Session} (hs : s.context.cancelled = false) :
    ((run { p with schedule } sources).run.run s).1 = ((run p sources).run.run s).1 := by
  have other : Undisturbed { p with schedule } := ⟨h.visitors, h.progress⟩
  rw [h.run_eq hf sources hs]
  exact other.run_eq hf sources hs

theorem statsAlone_perm (p : Pipeline) {sources sources' : List Source} (h : sources.Perm sources') :
    statsAlone p sources = statsAlone p sources' := by
  simp only [statsAlone, h.length_eq, (h.map _).sum_eq, (h.map _).countP_eq]

/-- In a batch every file fares as it does by itself, the numbers are those of the single files together, and the
order of the files is only the order of the results. -/
theorem run_batch_eq_alone (p : Pipeline) (h : Undisturbed p) (hf : p.config.failFast = false) :
    ∃ (result : Source → FileResult) (stats : Source → RunStats),
      (∀ source s, s.context.cancelled = false →
        ((run p [source]).run.run s).1 = .ok ⟨[result source], stats source, false⟩) ∧
      (∀ sources s, s.context.cancelled = false → ∃ batch,
        ((run p sources).run.run s).1 = .ok ⟨sources.map result, batch, false⟩ ∧
        batch.files = (sources.map fun f => (stats f).files).sum ∧
        batch.visits = (sources.map fun f => (stats f).visits).sum ∧
        batch.changedFiles = (sources.map fun f => (stats f).changedFiles).sum ∧
        batch.failedFiles = (sources.map fun f => (stats f).failedFiles).sum) ∧
      ∀ sources sources' s s', s.context.cancelled = false → s'.context.cancelled = false →
        sources.Perm sources' → ∃ batch batch',
          ((run p sources).run.run s).1 = .ok batch ∧ ((run p sources').run.run s').1 = .ok batch' ∧
          batch.results.Perm batch'.results ∧ batch.stats = batch'.stats := by
  refine ⟨resultAlone p, fun source => statsAlone p [source], fun source s hs => h.run_eq hf [source] hs,
    fun sources s hs => ⟨_, h.run_eq hf sources hs, ?files, ?visits, ?changed, ?failed⟩,
    fun sources sources' s s' hs hs' hperm => ⟨_, _, h.run_eq hf sources hs, h.run_eq hf sources' hs',
      hperm.map _, statsAlone_perm p hperm⟩⟩
  case files => simp [statsAlone]
  case visits => simp [statsAlone]
  case changed => exact (countP_eq_sum_singletons _ _).trans (by rw [List.map_map]; rfl)
  case failed => exact (countP_eq_sum_singletons _ _).trans (by rw [List.map_map]; rfl)

def answering (reply : Source → Except Abort (Visit Source)) : SourceVisitor where
  accepts s := s.kind == .text
  visit s := ExceptT.mk (pure (reply s))

theorem decides_answering {reply : Source → Except Abort (Visit Source)}
    (h : ∀ source, reply source ≠ .error (.error .cancelled)) : (answering reply).Decides reply :=
  ⟨fun _ _ _ => rfl, fun _ _ hs => hs, h⟩

def emptied : Source → Except Abort (Visit Source)
  | .text t => if t.text = "" then .error (.error (.internal "empty")) else .ok (.changed (.text { t with text := "" }))
  | .markup _ => .ok .unchanged

def needText : Source → Except Abort (Visit Source)
  | .text t => if t.text = "" then .error (.crash (some "empty")) else .ok .unchanged
  | .markup _ => .ok .unchanged

def emptyThenRead : Pipeline where
  recipes := []
  stages := [⟨"empty", some (answering emptied), ["empty"]⟩, ⟨"read", some (answering needText), ["read"]⟩]

theorem undisturbed_emptyThenRead : Undisturbed emptyThenRead where
  visitors stage hstage v hv := by
    obtain rfl | hstage := List.mem_cons.1 hstage
    · obtain rfl := Option.some.inj hv
      refine ⟨emptied, decides_answering fun source => ?_⟩
      unfold emptied
      split
      · split <;> nofun
      · nofun
    · obtain rfl := List.mem_singleton.1 hstage
      obtain rfl := Option.some.inj hv
      refine ⟨needText, decides_answering fun source => ?_⟩
      unfold needText
      split
      · split <;> nofun
      · nofun
  progress _ _ hs := hs

/-- The empty text fails in both stages, the other one only in the second; together they fare the same. -/
theorem run_batch_eq_alone_emptyThenRead :
    Undisturbed emptyThenRead ∧ emptyThenRead.config.failFast = false ∧ ∃ full empty batch,
      ((emptyThenRead.run [.text ⟨.none, ⟨"a.txt"⟩, [], "a"⟩]).run.run {}).1 = .ok full ∧
      ((emptyThenRead.run [.text ⟨.none, ⟨"b.txt"⟩, [], ""⟩]).run.run {}).1 = .ok empty ∧
      ((emptyThenRead.run [.text ⟨.none, ⟨"a.txt"⟩, [], "a"⟩, .text ⟨.none, ⟨"b.txt"⟩, [], ""⟩]).run.run {}).1 =
        .ok batch ∧
      batch.results = full.results ++ empty.results ∧ batch.stats.visits = full.stats.visits + empty.stats.visits := by
  obtain ⟨result, stats, alone, together, -⟩ := run_batch_eq_alone emptyThenRead undisturbed_emptyThenRead rfl
  obtain ⟨batch, hrun, -, visits, -⟩ :=
    together [.text ⟨.none, ⟨"a.txt"⟩, [], "a"⟩, .text ⟨.none, ⟨"b.txt"⟩, [], ""⟩] {} rfl
  exact ⟨undisturbed_emptyThenRead, rfl, _, _, _, alone _ {} rfl, alone _ {} rfl, hrun, rfl, visits⟩

end Pipeline
end Emend
