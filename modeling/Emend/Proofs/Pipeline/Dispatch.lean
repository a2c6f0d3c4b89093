import Emend.Proofs.Pipeline.Rounds
import Emend.Proofs.Visit

/-! # Which stage visits which file

Through all rounds a file keeps its kind and its path, whatever the visitors do. So where all visitors are visitors
of markup, the kind a file was read with decides alone which stages visit it (`dispatch_by_kind`).
-/

namespace Emend

namespace Source

def isMarkup : Source → Bool
  | .markup _ => true
  | .text _ => false

/-- The files that a visitor of markup for `target` is for. -/
def isMarkupOf (target : SourceKind) (s : Source) : Bool := s.isMarkup && s.kind.isA target

theorem isMarkupOf_eq_isA {target : SourceKind} (h : target ≠ .text) (s : Source) :
    s.isMarkupOf target = s.kind.isA target := by
  cases s with
  | markup d => rfl
  | text t => cases target <;> first | rfl | exact absurd rfl h

end Source

/-- The stage has a visitor of markup for `target`. -/
def Stage.VisitsMarkup (stage : Stage) (target : SourceKind) : Prop :=
  ∃ (σ : Type) (v : Markup.Visitor (StateT σ Visiting)) (start : σ),
    stage.visitor = some (.ofMarkup v start) ∧ v.target = target

theorem SourceVisitor.accepts_ofMarkup {σ : Type} (v : Markup.Visitor (StateT σ Visiting)) (start : σ)
    (s : Source) : (ofMarkup v start).accepts s = s.isMarkupOf v.target := by
  cases s <;> rfl

namespace Pipeline

variable {p : Pipeline} {sources : List Source} {s : Session}

theorem sameFile_amended {r : Round} {t : Turn} (h : SameFile t.file.after t.file.before) :
    SameFile (r.amended t).after (r.amended t).before := by
  rw [Round.amended, FileResult.before_amend]
  cases ho : r.outcome t with
  | changed after => exact (Encounter.of_outcome_changed ho).1.trans h
  | _ => exact h

theorem Answers.isMarkup {σ : Type} {v : Markup.Visitor (StateT σ Visiting)} {start : σ} {recipe : String}
    {source after : Source} (h : Answers recipe (.ofMarkup v start) source (.ok (.changed after))) :
    source.isMarkup = true ∧ after.isMarkup = true := by
  obtain ⟨s, h⟩ := h
  rw [run_guarded, answer_eq_ok] at h
  cases source with
  | text t => cases h
  | markup d =>
    refine ⟨rfl, ?_⟩
    by_cases hk : d.kind.isA v.target = true
    · obtain ⟨⟨w, s'⟩, visited⟩ : ∃ x, ((v.visit d).run' start).run.run s = x := ⟨_, rfl⟩
      have settled := run_map_of_run (f := fun w => (w.map Source.markup).settle (.markup d)) visited
      simp only [SourceVisitor.ofMarkup, hk, if_true, bind_pure_comp, settled] at h
      obtain ⟨w, rfl, hw⟩ := map_eq_ok.1 h
      cases w with
      | unchanged => cases Visit.eq_changed_of_settle hw
      | changed d' =>
        obtain rfl := Visit.changed.inj (Visit.eq_changed_of_settle hw)
        rfl
    · simp only [SourceVisitor.ofMarkup, hk] at h
      cases h

theorem isMarkup_amended {r : Round} {t : Turn} {target : SourceKind} (hstage : r.stage.VisitsMarkup target)
    (met : Meets p.config r.stage t.file.after t.encounter) :
    (r.amended t).after.isMarkup = t.file.after.isMarkup := by
  rw [Round.amended]
  cases ho : r.outcome t with
  | changed after =>
    obtain ⟨_, second, he⟩ := Encounter.of_outcome_changed ho
    obtain ⟨σ, v, start, hv, _⟩ := hstage
    have answered : Answers r.stage.name (.ofMarkup v start) t.file.after (.ok (.changed after)) := by
      rw [he] at met
      cases met with
      | visited visitor _ answered _ | revisited visitor _ answered _ _ =>
        obtain rfl := Option.some.inj (hv.symm.trans visitor)
        exact answered
    exact answered.isMarkup.2.trans answered.isMarkup.1.symm
  | _ => rfl

/-- In a round that was not cancelled a visitor of markup visits the files it is for. -/
theorem isVisit_iff_isMarkupOf {r : Round} {t : Turn} {target : SourceKind} (hstage : r.stage.VisitsMarkup target)
    (met : Meets p.config r.stage t.file.after t.encounter) (going : (r.outcome t).isCancelled = false) :
    t.encounter.isVisit = t.file.after.isMarkupOf target := by
  obtain ⟨σ, v, start, hv, rfl⟩ := hstage
  rw [← SourceVisitor.accepts_ofMarkup v start]
  cases he : t.encounter with
  | late => simp [Round.outcome, he, Encounter.outcome, Outcome.isCancelled] at going
  | passed =>
    rw [he] at met
    cases met with
    | passed refused => exact (refused _ hv).symm
  | visited first second =>
    rw [he] at met
    cases met with
    | visited visitor accepted _ _ | revisited visitor accepted _ _ _ =>
      obtain rfl := Option.some.inj (hv.symm.trans visitor)
      exact accepted.symm

theorem sameFile_rounds (p : Pipeline) (sources : List Source) (s : Session) :
    (∀ r ∈ rounds p sources s, ∀ t ∈ r.turns, SameFile t.file.after t.file.before) ∧
      ∀ f ∈ resultsAfter (sources.map FileResult.start) (rounds p sources s), SameFile f.after f.before := by
  have follows := p.follows_rounds sources s
  refine follows.forall_files (fun f => SameFile f.after f.before)
    (fun r _ t _ _ kept => sameFile_amended kept) fun f hf => ?_
  obtain ⟨source, _, rfl⟩ := List.mem_map.1 hf
  exact .refl source

theorem isMarkup_rounds (p : Pipeline) {target : Stage → SourceKind}
    (markup : ∀ stage ∈ p.stages, stage.VisitsMarkup (target stage)) (sources : List Source) (s : Session) :
    ∀ r ∈ rounds p sources s, ∀ t ∈ r.turns, t.file.after.isMarkup = t.file.before.isMarkup := by
  have follows := p.follows_rounds sources s
  have stages : ∀ r ∈ rounds p sources s, r.stage.VisitsMarkup (target r.stage) := fun r hr =>
    markup _ (follows.stage_mem hr)
  refine (follows.forall_files (fun f => f.after.isMarkup = f.before.isMarkup)
    (fun r hr t _ met kept => ?_) fun f hf => ?_).1
  · rw [isMarkup_amended (stages r hr) met, kept, Round.amended, FileResult.before_amend]
  · obtain ⟨source, _, rfl⟩ := List.mem_map.1 hf
    rfl

/-- Each round of a run that was not cut short visits the files the stage is for, by what they were read as. -/
theorem isVisit_rounds (p : Pipeline) {target : Stage → SourceKind}
    (markup : ∀ stage ∈ p.stages, stage.VisitsMarkup (target stage)) (sources : List Source) (s : Session)
    {r : Round} (hr : r ∈ rounds p sources s) (hc : r.cancelled = false) :
    r.turns.map (·.encounter.isVisit) = sources.map (·.isMarkupOf (target r.stage)) ∧
      r.visits = sources.countP (·.isMarkupOf (target r.stage)) := by
  have follows := p.follows_rounds sources s
  have stage : r.stage.VisitsMarkup (target r.stage) :=
    markup _ (follows.stage_mem hr)
  have before : r.turns.map (·.file.before) = sources := by
    have h := follows.map_before.1 r hr
    rw [map_before_start, Round.files, List.map_map] at h
    exact h
  have going : ∀ t ∈ r.turns, (r.outcome t).isCancelled = false := by
    simpa [Round.cancelled] using hc
  -- stages change neither the path of a file nor whether it is markup, so what was read decides
  have visits : ∀ t ∈ r.turns, t.encounter.isVisit = t.file.before.isMarkupOf (target r.stage) := by
    intro t ht
    rw [isVisit_iff_isMarkupOf stage (follows.met hr ht) (going t ht), Source.isMarkupOf, Source.isMarkupOf,
      isMarkup_rounds p markup sources s r hr t ht, ((sameFile_rounds p sources s).1 r hr t ht).1]
  constructor
  · rw [← before, List.map_map]
    exact List.map_congr_left visits
  · rw [← before, List.countP_map, Round.visits]
    refine List.countP_congr fun t ht => ?_
    rw [Round.outcome, Encounter.isVisit_outcome (going t ht), visits t ht]
    rfl

/-- A run that was not cancelled has one round a stage, and its visits are those of the files the stages are for. -/
theorem visits_of_uncancelled {target : Stage → SourceKind}
    (markup : ∀ stage ∈ p.stages, stage.VisitsMarkup (target stage)) {s' : Session} {result : RecipeRun}
    (hrun : (run p sources).run.run s = (.ok result, s')) (hc : result.cancelled = false) :
    (rounds p sources s).map Round.stage = p.stages ∧
      (∀ r ∈ rounds p sources s,
        r.turns.map (·.encounter.isVisit) = sources.map (·.isMarkupOf (target r.stage))) ∧
      result.stats.visits = (p.stages.map fun stage => sources.countP (·.isMarkupOf (target stage))).sum := by
  obtain ⟨-, hvisits, hcancelled⟩ := of_run_eq_ok p hrun
  have all : p.stages.length ≤ completed (rounds p sources s) := by
    rw [hc] at hcancelled
    exact Nat.not_lt.1 (of_decide_eq_false hcancelled.symm)
  obtain ⟨stages, going⟩ := (p.follows_rounds sources s).of_completed all
  have visits (r : Round) (hr : r ∈ rounds p sources s) := isVisit_rounds p markup sources s hr (going r hr)
  refine ⟨stages, fun r hr => (visits r hr).1, ?_⟩
  rw [hvisits, ← stages, List.map_map]
  exact congrArg List.sum (List.map_congr_left fun r hr => (visits r hr).2)

theorem sameFile_conclude {f : FileResult} (h : SameFile f.after f.before) :
    SameFile (conclude f).after (conclude f).before := by
  unfold conclude
  split
  · exact .refl f.before
  · exact h

/-- Kind and path are fixed for the whole run, and where all visitors are visitors of markup they decide alone which
files a stage visits. -/
theorem dispatch_by_kind (p : Pipeline) :
    (∀ sources s,
      (∀ r ∈ rounds p sources s, r.turns.map (·.file.before) = sources ∧
        ∀ t ∈ r.turns, SameFile t.file.after t.file.before ∧ SameFile (r.amended t).after t.file.before) ∧
      ∀ result s', (run p sources).run.run s = (.ok result, s') →
        result.results.map (·.before) = sources ∧ ∀ f ∈ result.results, SameFile f.after f.before) ∧
    ∀ target : Stage → SourceKind, (∀ stage ∈ p.stages, stage.VisitsMarkup (target stage)) →
      p.config.failFast = false →
      ∀ sources s, ∃ result s', (run p sources).run.run s = (.ok result, s') ∧ (result.cancelled = false →
        (rounds p sources s).map Round.stage = p.stages ∧
        (∀ r ∈ rounds p sources s,
          r.turns.map (·.encounter.isVisit) = sources.map (·.isMarkupOf (target r.stage)) ∧
          (target r.stage ≠ .text →
            r.turns.map (·.encounter.isVisit) = sources.map (·.kind.isA (target r.stage)))) ∧
        result.stats.visits = (p.stages.map fun stage => sources.countP (·.isMarkupOf (target stage))).sum ∧
        ∀ sources' t result' t', sources'.Perm sources → (run p sources').run.run t = (.ok result', t') →
          result'.cancelled = false → result'.stats.visits = result.stats.visits) := by
  have follows := p.follows_rounds
  refine ⟨fun sources s => ⟨fun r hr => ?_, fun result s' hrun => ?_⟩, fun target markup hf sources s => ?_⟩
  · have before := (follows sources s).map_before.1 r hr
    rw [map_before_start, Round.files, List.map_map] at before
    refine ⟨before, fun t ht => ?_⟩
    have kept := (sameFile_rounds p sources s).1 r hr t ht
    have amended := sameFile_amended (r := r) kept
    rw [Round.amended, FileResult.before_amend] at amended
    exact ⟨kept, amended⟩
  · obtain ⟨hresults, -⟩ := of_run_eq_ok p hrun
    constructor
    · have before := (follows sources s).map_before.2
      rw [map_before_start] at before
      rw [hresults, List.map_map]
      exact (List.map_congr_left fun f _ => before_conclude f).trans before
    · intro f hmem
      rw [hresults] at hmem
      obtain ⟨g, hg, rfl⟩ := List.mem_map.1 hmem
      exact sameFile_conclude ((sameFile_rounds p sources s).2 g hg)
  · obtain ⟨result, s', hrun⟩ := run_of_not_failFast p hf sources s
    refine ⟨result, s', hrun, fun hc => ?_⟩
    obtain ⟨stages, visited, visits⟩ := visits_of_uncancelled markup hrun hc
    refine ⟨stages, fun r hr => ⟨visited r hr, fun hk => ?_⟩, visits, fun sources' t result' t' hperm hrun' hc' => ?_⟩
    · rw [visited r hr]
      exact List.map_congr_left fun source _ => source.isMarkupOf_eq_isA hk
    · rw [visits, (visits_of_uncancelled markup hrun' hc').2.2]
      simp only [hperm.countP_eq]

def emptyDocument (path : String) (kind : SourceKind) : Source :=
  .markup ⟨.none, ⟨path⟩, kind, [], false, ⟨.none, none, []⟩, ⟨.none, "", [], "a", [], none, none, ""⟩, [], ""⟩

def flattening : Markup.Visitor (StateT Unit Visiting) where
  document _ d _ := return .changed { d with kind := .xml }

def refusing : Markup.Visitor (StateT Unit Visiting) where
  target := .mavenPom
  document _ _ _ := StateT.lift (Visiting.fail (.internal "refused"))

def flattenThenRefuse : Pipeline where
  recipes := []
  stages := [⟨"flatten", some (.ofMarkup flattening ()), ["flatten"]⟩,
    ⟨"refuse", some (.ofMarkup refusing ()), ["refuse"]⟩]

def threeKinds : List Source :=
  [.text ⟨.none, ⟨"a.txt"⟩, [], "a"⟩, emptyDocument "a.xml" .xml, emptyDocument "pom.xml" .mavenPom]

/-- The descriptor stays a descriptor through the first stage, and so the second one visits it. -/
theorem dispatch_by_kind_flattenThenRefuse :
    ∃ target : Stage → SourceKind, (∀ stage ∈ flattenThenRefuse.stages, stage.VisitsMarkup (target stage)) ∧
      flattenThenRefuse.config.failFast = false ∧
      ∃ result s', (flattenThenRefuse.run threeKinds).run.run {} = (.ok result, s') ∧ result.cancelled = false ∧
        result.stats.visits = 3 := by
  let target (stage : Stage) : SourceKind := if stage.name = "flatten" then .xml else .mavenPom
  have markup : ∀ stage ∈ flattenThenRefuse.stages, stage.VisitsMarkup (target stage) := by
    intro stage hstage
    obtain rfl | hstage := List.mem_cons.1 hstage
    · exact ⟨Unit, flattening, (), rfl, rfl⟩
    · obtain rfl := List.mem_singleton.1 hstage
      exact ⟨Unit, refusing, (), rfl, rfl⟩
  refine ⟨target, markup, rfl, ?_⟩
  obtain ⟨result, s', hrun, visits⟩ := (dispatch_by_kind flattenThenRefuse).2 target markup rfl threeKinds {}
  have hc : (match ((flattenThenRefuse.run threeKinds).run.run {}).1 with
      | .ok result => result.cancelled
      | .error _ => true) = false := by decide +kernel
  rw [hrun] at hc
  exact ⟨result, s', hrun, hc, (visits hc).2.2.1.trans (by decide +kernel)⟩

/-- A visitor of markup for plain texts visits none. -/
theorem visitor_for_text_visits_no_text :
    ∃ (p : Pipeline) (source : Source), (∀ stage ∈ p.stages, stage.VisitsMarkup .text) ∧ source.kind.isA .text = true ∧
      ∃ result s, (p.run [source]).run.run {} = (.ok result, s) ∧ result.cancelled = false ∧
        result.stats.visits = 0 := by
  let visitor : Markup.Visitor (StateT Unit Visiting) := { target := .text }
  refine ⟨{ recipes := [], stages := [⟨"texts", some (.ofMarkup visitor ()), ["texts"]⟩] },
    .text ⟨.none, ⟨"a.txt"⟩, [], "a"⟩, fun stage hstage => ?_, rfl, _, _, rfl, rfl, rfl⟩
  obtain rfl := List.mem_singleton.1 hstage
  exact ⟨Unit, visitor, (), rfl, rfl⟩

end Pipeline
end Emend
