import Emend.Proofs.Pipeline.History

/-! # Runs that agree

Where visitors go by the file, and by whether the run was asked to stop, nothing else of the session that a run
starts from matters to it: the rounds differ in their sessions alone, and the run comes to the same (`run_agrees`).
-/

namespace Emend

/-- Both were asked to stop, or neither was. -/
def Session.Agrees (s t : Session) : Prop := s.context.cancelled = t.context.cancelled

namespace Pipeline

structure GoesByFile (p : Pipeline) : Prop where
  visitors : ∀ stage ∈ p.stages, ∀ v ∈ stage.visitor, ∀ source s t, s.Agrees t →
    ((v.visit source).run.run s).1 = ((v.visit source).run.run t).1 ∧
      ((v.visit source).run.run s).2.Agrees ((v.visit source).run.run t).2
  progress : ∀ info s t, s.Agrees t → ((p.progress info).run s).2.Agrees ((p.progress info).run t).2

def Round.forget (r : Round) : Round := { r with session := {} }

section Forget

theorem resultsAfter_forget (files : List FileResult) (rounds : List Round) :
    resultsAfter files (rounds.map Round.forget) = resultsAfter files rounds := by
  induction rounds generalizing files with
  | nil => rfl
  | cons r rounds ih => exact ih r.results

theorem completed_forget (rounds : List Round) : completed (rounds.map Round.forget) = completed rounds := by
  rw [completed, List.countP_map]
  rfl

theorem runEnd_forget (p : Pipeline) (sources : List Source) (rounds : List Round) :
    runEnd p sources (rounds.map Round.forget) = runEnd p sources rounds := by
  simp only [runEnd, List.findSome?_map, resultsAfter_forget, completed_forget, List.map_map]
  rfl

end Forget

variable {p : Pipeline} (h : GoesByFile p) {s t : Session}
include h

theorem GoesByFile.guarded {stage : Stage} (hstage : stage ∈ p.stages) {v : SourceVisitor}
    (hv : stage.visitor = some v) (source : Source) (hst : s.Agrees t) :
    ∃ reply s' t', (guarded stage.name source.path (v.visit source)).run s = (reply, s') ∧
      (guarded stage.name source.path (v.visit source)).run t = (reply, t') ∧ s'.Agrees t' := by
  obtain ⟨same, agrees⟩ := h.visitors stage hstage v hv source s t hst
  refine ⟨_, _, _, run_guarded .., ?_, agrees⟩
  rw [run_guarded, same]

theorem GoesByFile.encounter {stage : Stage} (hstage : stage ∈ p.stages) (source : Source) (hst : s.Agrees t) :
    ∃ e s' t', (encounter p.config stage source).run s = (e, s') ∧
      (encounter p.config stage source).run t = (e, t') ∧ s'.Agrees t' := by
  cases hs : s.context.cancelled with
  | true =>
    have ht : t.context.cancelled = true := hst.symm.trans hs
    exact ⟨.late, s, t, run_encounter_late p.config stage source hs, run_encounter_late p.config stage source ht, hst⟩
  | false =>
    have ht : t.context.cancelled = false := hst.symm.trans hs
    by_cases refused : ∀ v ∈ stage.visitor, v.accepts source = false
    · exact ⟨.passed, s, t, run_encounter_passed p.config stage hs refused,
        run_encounter_passed p.config stage ht refused, hst⟩
    · simp only [Classical.not_forall, Bool.not_eq_false] at refused
      obtain ⟨v, visitor, accepted⟩ := refused
      obtain ⟨first, s₁, t₁, hs₁, ht₁, hst₁⟩ := h.guarded hstage visitor source hst
      cases hr : toRevisit? p.config source first with
      | none =>
        exact ⟨_, s₁, t₁, run_encounter_visited p.config stage hs visitor accepted hs₁ hr,
          run_encounter_visited p.config stage ht visitor accepted ht₁ hr, hst₁⟩
      | some after =>
        obtain ⟨second, s₂, t₂, hs₂, ht₂, hst₂⟩ := h.guarded hstage visitor after hst₁
        exact ⟨_, s₂, t₂, run_encounter_revisited p.config stage hs visitor accepted hs₁ hr hs₂,
          run_encounter_revisited p.config stage ht visitor accepted ht₁ hr ht₂, hst₂⟩

theorem GoesByFile.meetEach (index : Nat) {stage : Stage} (hstage : stage ∈ p.stages) (files done : Nat)
    (rs : List FileResult) (hst : s.Agrees t) :
    ((meetEach p index stage files done rs).run s).1 = ((meetEach p index stage files done rs).run t).1 ∧
      ((meetEach p index stage files done rs).run s).2.Agrees ((meetEach p index stage files done rs).run t).2 := by
  induction rs generalizing done s t with
  | nil => exact ⟨rfl, hst⟩
  | cons r rs ih =>
    obtain ⟨e, s₁, t₁, hs, ht, hst₁⟩ := h.encounter hstage r.after hst
    obtain ⟨turns, agrees⟩ := ih (done + 1) (h.progress ⟨index, p.stages.length, stage.name, files, done + 1,
      r.before.path⟩ s₁ t₁ hst₁)
    rw [Pipeline.meetEach]
    simp only [StateT.run_bind, hs, ht]
    constructor
    · exact congrArg (List.cons ⟨r, e⟩) turns
    · exact agrees

theorem GoesByFile.meetAll (index : Nat) {stage : Stage} (hstage : stage ∈ p.stages) (files : List FileResult)
    (hst : s.Agrees t) :
    ((meetAll p index stage files).run s).1 = ((meetAll p index stage files).run t).1 ∧
      ((meetAll p index stage files).run s).2.Agrees ((meetAll p index stage files).run t).2 := by
  obtain ⟨turns, agrees⟩ := h.meetEach index hstage files.length 0 (p.arrange index files) hst
  exact ⟨congrArg (p.restore index files.length) turns, agrees⟩

/-- The rounds differ in their sessions alone. -/
theorem GoesByFile.historyFrom (index : Nat) {stages : List Stage} (hstages : stages ⊆ p.stages)
    (files : List FileResult) (hst : s.Agrees t) :
    ((historyFrom p index stages files).run s).1.map Round.forget =
      ((historyFrom p index stages files).run t).1.map Round.forget := by
  induction stages generalizing index files s t with
  | nil => rfl
  | cons stage stages ih =>
    obtain ⟨hstage, hbehind⟩ := List.cons_subset.1 hstages
    cases hs : s.context.cancelled with
    | true =>
      have ht : t.context.cancelled = true := hst.symm.trans hs
      rw [run_historyFrom_of_cancelled p index stage stages files hs,
        run_historyFrom_of_cancelled p index stage stages files ht]
    | false =>
      have ht : t.context.cancelled = false := hst.symm.trans hs
      obtain ⟨r, rfl, rfl, met⟩ := exists_round p index stage files s
      obtain ⟨⟨turns, t₁⟩, met'⟩ : ∃ x, (p.meetAll index r.stage r.files).run t = x := ⟨_, rfl⟩
      have agree := h.meetAll index hstage r.files hst
      rw [met, met'] at agree
      obtain ⟨rfl, agrees⟩ := agree
      -- the other run comes to the same round, but for its session
      let r' : Round := { r with session := t₁ }
      have other : (p.historyFrom index (r.stage :: stages) r.files).run t =
          if r.goesOn p.config then
            Prod.map (r' :: ·) id ((p.historyFrom (index + 1) stages r.results).run (r'.closed p.config))
          else ([r'], r'.closed p.config) := run_historyFrom_of_round p index stages (r := r') ht met'
      rw [run_historyFrom_of_round p index stages hs met, other]
      cases r.goesOn p.config with
      | true =>
        refine congrArg (List.cons r.forget) (ih (index + 1) hbehind r.results ?_)
        rw [Session.Agrees, Round.closed, Round.closed, Session.cancelled_tell, Session.cancelled_tell]
        exact agrees
      | false => rfl

theorem GoesByFile.rounds (sources : List Source) (hst : s.Agrees t) :
    (p.rounds sources s).map Round.forget = (p.rounds sources t).map Round.forget :=
  h.historyFrom 0 (List.Subset.refl _) _ hst

theorem run_agrees (sources : List Source) (hst : s.Agrees t) :
    ((run p sources).run.run s).1 = ((run p sources).run.run t).1 := by
  rw [run_eq_rounds, run_eq_rounds]
  change runEnd p sources (p.rounds sources s) = runEnd p sources (p.rounds sources t)
  rw [← runEnd_forget, h.rounds sources hst, runEnd_forget]

end Pipeline
end Emend
