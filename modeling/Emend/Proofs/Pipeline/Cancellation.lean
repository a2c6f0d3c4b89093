import Emend.Proofs.Pipeline.Rounds

/-! # Cancelled visits

A visit may end by the request to stop. Where that is the first visit of a file, the file keeps the tree it had
before the stage, nothing is reported of it, and the run ends as a cancelled one (`cancelled_visits`). A second
visit that ends so is held against the file like any other error.
-/

namespace Emend.Pipeline

variable {p : Pipeline} {sources : List Source} {s : Session}

/-- A round with a cancelled turn is the last one. The run is then a cancelled one, unless a failure in that very
round ended it. -/
theorem run_of_cancelled {k : Nat} {r : Round} (hr : (rounds p sources s)[k]? = some r)
    (hc : r.cancelled = true) :
    k + 1 = (rounds p sources s).length ∧
      ((∃ result, (run p sources).run.run s = (.ok result, r.closed p.config) ∧ result.cancelled = true ∧
          result.results = r.results.map conclude) ∨
        p.config.failFast = true ∧ ∃ e, .failed e ∈ r.turns.map r.outcome ∧
          (run p sources).run.run s = (.error e, r.closed p.config)) := by
  have follows := p.follows_rounds sources s
  have stops : r.goesOn p.config = false := by simp [Round.goesOn, hc]
  have last := follows.eq_last hr stops
  have short := follows.completed_lt (List.mem_of_getElem? hr) hc
  obtain ⟨before, rounds_eq, -⟩ := follows.eq_append_last hr last
  refine ⟨last, ?_⟩
  rw [run_eq_rounds, runEnd, follows.findSome?_abort? hr last, rounds_eq, sessionAfter_append, resultsAfter_append]
  cases ha : r.abort? p.config with
  | some e =>
    obtain ⟨hf, he⟩ := mem_of_abort? p.config ha
    exact .inr ⟨hf, e, he, rfl⟩
  | none => exact .inl ⟨_, rfl, decide_eq_true (rounds_eq ▸ short), rfl⟩

theorem cancelled_visits {k : Nat} {r : Round} (hr : (rounds p sources s)[k]? = some r) {i : Nat} {t : Turn}
    (ht : r.turns[i]? = some t) :
    (∀ second, t.encounter = .visited (.error .cancelled) second →
      r.amended t = t.file ∧ r.failure? t = none ∧
      (r.closed p.config).context.failures = r.session.context.failures ++ r.told p.config ∧
      r.told p.config <+: r.turns.filterMap r.failure? ∧
      k + 1 = (rounds p sources s).length ∧
      ((∃ result, (run p sources).run.run s = (.ok result, r.closed p.config) ∧ result.cancelled = true ∧
          result.results[i]? = some (conclude t.file)) ∨
        p.config.failFast = true ∧ ∃ e, .failed e ∈ r.turns.map r.outcome ∧
          (run p sources).run.run s = (.error e, r.closed p.config))) ∧
    (∀ first, t.encounter = .visited first (some (.error .cancelled)) →
      let failure := Failure.of t.file.before.path (some r.stage.name) .cancelled
      r.failure? t = some failure ∧ r.amended t = { t.file with failures := t.file.failures ++ [failure] }) := by
  constructor
  · intro second he
    have ho : r.outcome t = .cancelled := by rw [Round.outcome, he, Encounter.outcome_of_cancelled]
    have hc : r.cancelled = true := List.any_eq_true.2 ⟨t, List.mem_of_getElem? ht, by rw [ho]; rfl⟩
    have kept : r.amended t = t.file := by rw [Round.amended, ho]; rfl
    obtain ⟨last, ended⟩ := run_of_cancelled hr hc
    refine ⟨kept, by rw [Round.failure?, ho]; rfl, Session.failures_tell _ _, r.told_isPrefix _, last,
      ended.imp_left ?_⟩
    rintro ⟨result, hrun, hcancelled, hresults⟩
    refine ⟨result, hrun, hcancelled, ?_⟩
    rw [hresults, Round.results, List.getElem?_map, List.getElem?_map, ht, Option.map_some, Option.map_some, kept]
  · intro first he
    have follows := p.follows_rounds sources s
    have met := follows.met (List.mem_of_getElem? hr) (List.mem_of_getElem? ht)
    rw [he] at met
    have ho : r.outcome t = .failed .cancelled := by rw [Round.outcome, he, met.outcome_of_objection]
    rw [Round.failure?, Round.amended, ho]
    exact ⟨rfl, rfl⟩

def emptying : SourceVisitor where
  accepts _ := true
  visit
    | .text t => if t.text.isEmpty then Visiting.fail .cancelled else return .changed (.text { t with text := "" })
    | .markup _ => return .unchanged

def emptyingTwo (config : PipelineConfig) : Pipeline × List Source :=
  ({ recipes := [], stages := [⟨"empty", some emptying, ["empty"]⟩], config },
    [.text ⟨.none, ⟨"a.txt"⟩, [], "a"⟩, .text ⟨.none, ⟨"b.txt"⟩, [], ""⟩])

theorem cancelled_visits_emptyingTwo :
    ∃ r t, (rounds (emptyingTwo {}).1 (emptyingTwo {}).2 {})[0]? = some r ∧ r.turns[1]? = some t ∧
      t.encounter = .visited (.error .cancelled) none ∧ r.amended t = t.file ∧ r.failure? t = none ∧
      ∃ result, ((emptyingTwo {}).1.run (emptyingTwo {}).2).run.run {} = (.ok result, r.closed {}) ∧
        result.cancelled = true ∧ result.results[1]? = some (conclude t.file) := by
  refine ⟨_, _, rfl, rfl, rfl, ?_⟩
  obtain ⟨kept, silent, _, _, _, ended⟩ :=
    (@cancelled_visits (emptyingTwo {}).1 (emptyingTwo {}).2 {} 0 _ rfl 1 _ rfl).1 none rfl
  obtain ended | ⟨failFast, _⟩ := ended
  · exact ⟨kept, silent, ended⟩
  · cases failFast

/-- A second visit that is cancelled is a failure of the file, and the run is not cancelled. -/
theorem second_visit_cancelled_fails :
    ∃ (p : Pipeline) (source : Source) (r : Round) (t : Turn) (first : Reply) (result : RecipeRun) (s : Session),
      rounds p [source] {} = [r] ∧ r.turns = [t] ∧ t.encounter = .visited first (some (.error .cancelled)) ∧
      (p.run [source]).run.run {} = (.ok result, s) ∧ result.cancelled = false ∧
      result.results.map (·.failures) = [[Failure.of source.path (some r.stage.name) .cancelled]] ∧
      s.context.failures = [Failure.of source.path (some r.stage.name) .cancelled] :=
  ⟨(emptyingTwo { checkIdempotence := true }).1, .text ⟨.none, ⟨"a.txt"⟩, [], "a"⟩, _, _, _, _, _,
    rfl, rfl, rfl, rfl, rfl, rfl, rfl⟩

end Emend.Pipeline
