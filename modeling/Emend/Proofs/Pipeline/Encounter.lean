import Emend.Proofs.Pipeline.Recording

/-! # Encounters

How one file meets one stage: whether it is visited, and what the visits are answered. The outcome of a file in a
stage is a function of the encounter (`visitFile_eq_encounter`), and `Meets` says which encounters there can be.
-/

namespace Emend.Pipeline

/-- What a visit was answered. -/
abbrev Reply := Except Error (Visit Source)

/-- How one file met one stage: too late, without a visit, or with one; a change may be visited again. -/
inductive Encounter where
  | late
  | passed
  | visited (first : Reply) (second : Option Reply)

namespace Encounter

def isVisit : Encounter → Bool
  | visited _ _ => true
  | late | passed => false

/-- What is held against a change into `after` that was visited again. -/
def objection? (recipe : String) (after : Source) : Reply → Option Error
  | .error e => some e
  | .ok .unchanged => none
  | .ok (.changed again) =>
    if SameAs.same again after then none
    else some (.consistency after.path s!"Recipe '{recipe}' changed the file again on a second pass")

/-- What comes of a first visit that changed `source` into `after`. -/
def ofChange (recipe : String) (source after : Source) (second : Option Reply) : Outcome :=
  if SameAs.same after source then .unchanged
  else
    match checkConsistent source after with
    | .error e => .failed e
    | .ok () =>
      match second.bind (objection? recipe after) with
      | some e => .failed e
      | none => .changed after

def outcome (recipe : String) (source : Source) : Encounter → Outcome
  | late => .cancelled
  | passed => .skipped
  | visited (.error .cancelled) _ => .cancelled
  | visited (.error e) _ => .failed e
  | visited (.ok .unchanged) _ => .unchanged
  | visited (.ok (.changed after)) second => ofChange recipe source after second

end Encounter

/-- The tree that has to stand a second visit after the first one was answered. -/
def toRevisit? (config : PipelineConfig) (source : Source) : Reply → Option Source
  | .ok (.changed after) =>
    if config.checkIdempotence && !SameAs.same after source && (checkConsistent source after).toBool then some after
    else none
  | _ => none

def encounter (config : PipelineConfig) (stage : Stage) (source : Source) : StateM Session Encounter := do
  if (← get).context.cancelled then return .late
  match stage.visitor with
  | none => return .passed
  | some v =>
    if !v.accepts source then return .passed
    let first ← guarded stage.name source.path (v.visit source)
    match toRevisit? config source first with
    | none => return .visited first none
    | some after => return .visited first (some (← guarded stage.name after.path (v.visit after)))

theorem toRevisit?_changed (config : PipelineConfig) (source after : Source) :
    toRevisit? config source (.ok (.changed after)) =
      if config.checkIdempotence && !SameAs.same after source && (checkConsistent source after).toBool then
        some after
      else none := rfl

theorem checkIdempotent_eq (recipe : String) (v : SourceVisitor) (after : Source) :
    checkIdempotent recipe v after =
      (fun second => match Encounter.objection? recipe after second with | some e => .error e | none => .ok ()) <$>
        guarded recipe after.path (v.visit after) := by
  unfold checkIdempotent
  rw [← bind_pure_comp]
  apply bind_congr
  intro second
  match second with
  | .error e => rfl
  | .ok .unchanged => rfl
  | .ok (.changed again) => by_cases h : SameAs.same again after = true <;> simp [Encounter.objection?, h]

/-- Meeting a stage comes to the outcome of the encounter. -/
theorem visitFile_eq_encounter (config : PipelineConfig) (stage : Stage) (source : Source) :
    visitFile config stage source = Encounter.outcome stage.name source <$> encounter config stage source := by
  unfold visitFile encounter
  simp only [map_bind]
  apply bind_congr
  intro s
  split
  · rfl
  cases stage.visitor with
  | none => rfl
  | some v =>
    simp only
    split
    · rfl
    simp only [map_bind]
    apply bind_congr
    intro first
    obtain e | _ | after := first
    · cases e <;> rfl
    · rfl
    · by_cases hs : SameAs.same after source = true
      · simp [toRevisit?_changed, hs, Encounter.outcome, Encounter.ofChange]
      -- the second visit comes only where the change is consistent and the check is on
      cases hc : checkConsistent source after with
      | error e => simp [toRevisit?_changed, hs, hc, Encounter.outcome, Encounter.ofChange, Except.toBool]
      | ok u =>
        by_cases hi : config.checkIdempotence = true
        · simp only [toRevisit?_changed, hs, hc, hi, Except.toBool, if_true, Bool.not_false, Bool.and_self,
            checkIdempotent_eq, bind_map_left, map_bind]
          apply bind_congr
          intro second
          cases ho : Encounter.objection? stage.name after second <;>
            simp [Encounter.outcome, Encounter.ofChange, hs, hc, ho]
        · simp [toRevisit?_changed, hs, hc, hi, Encounter.outcome, Encounter.ofChange]

def answer (recipe : String) (path : FilePath) : Except Abort (Visit Source) → Reply
  | .ok v => .ok v
  | .error (.error e) => .error e
  | .error (.crash (some m)) => .error (.visitor recipe path s!"Visitor panicked: {m}")
  | .error (.crash none) => .error (.visitor recipe path "Visitor panicked")

theorem guarded_eq (recipe : String) (path : FilePath) (x : Visiting (Visit Source)) :
    guarded recipe path x = answer recipe path <$> x.run := by
  unfold guarded
  rw [← bind_pure_comp]
  apply bind_congr
  intro reply
  match reply with
  | .ok v => rfl
  | .error (.error e) => rfl
  | .error (.crash (some m)) => rfl
  | .error (.crash none) => rfl

theorem answer_eq_ok {recipe : String} {path : FilePath} {r : Except Abort (Visit Source)} {v : Visit Source} :
    answer recipe path r = .ok v ↔ r = .ok v := by
  match r with
  | .ok w => simp [answer]
  | .error (.error e) => simp [answer]
  | .error (.crash (some m)) => simp [answer]
  | .error (.crash none) => simp [answer]

theorem run_guarded (recipe : String) (path : FilePath) (x : Visiting (Visit Source)) (s : Session) :
    (guarded recipe path x).run s = (answer recipe path (x.run.run s).1, (x.run.run s).2) := by
  rw [guarded_eq, StateT.run_map]
  rfl

/-- `reply` is what the visitor answers to a visit of `source` in some session. -/
def Answers (recipe : String) (v : SourceVisitor) (source : Source) (reply : Reply) : Prop :=
  ∃ s : Session, ((guarded recipe source.path (v.visit source)).run s).1 = reply

/-- What an encounter of `source` with the stage can be. -/
inductive Meets (config : PipelineConfig) (stage : Stage) (source : Source) : Encounter → Prop where
  | late : Meets config stage source .late
  | passed (refused : ∀ v ∈ stage.visitor, v.accepts source = false) : Meets config stage source .passed
  | visited {v : SourceVisitor} {first : Reply} (visitor : stage.visitor = some v)
      (accepted : v.accepts source = true) (answered : Answers stage.name v source first)
      (once : toRevisit? config source first = none) : Meets config stage source (.visited first none)
  | revisited {v : SourceVisitor} {first second : Reply} {after : Source} (visitor : stage.visitor = some v)
      (accepted : v.accepts source = true) (answered : Answers stage.name v source first)
      (twice : toRevisit? config source first = some after) (again : Answers stage.name v after second) :
      Meets config stage source (.visited first (some second))

/-- The same file: its kind, and its path in whatever spelling. -/
def SameFile (a b : Source) : Prop := a.kind = b.kind ∧ a.path.same b.path = true

theorem SameFile.refl (a : Source) : SameFile a a := ⟨rfl, BEq.rfl⟩

theorem SameFile.trans {a b c : Source} (hab : SameFile a b) (hbc : SameFile b c) : SameFile a c :=
  ⟨hab.1.trans hbc.1, beq_iff_eq.2 ((beq_iff_eq.1 hab.2).trans (beq_iff_eq.1 hbc.2))⟩

theorem checkConsistent_eq_ok {before after : Source} :
    checkConsistent before after = .ok () ↔ SameFile after before := by
  unfold checkConsistent SameFile
  by_cases hk : after.kind = before.kind
  · by_cases hp : after.path.same before.path = true <;> simp [hk, hp]
  · simp [hk]

namespace Encounter

theorem ofChange_eq_changed {recipe : String} {source after after' : Source} {second : Option Reply}
    (h : ofChange recipe source after second = .changed after') : after' = after ∧ SameFile after source := by
  unfold ofChange at h
  split at h
  · cases h
  split at h
  · cases h
  · next consistent =>
    split at h
    · cases h
    · exact ⟨(Outcome.changed.inj h).symm, checkConsistent_eq_ok.1 consistent⟩

theorem isVisit_ofChange (recipe : String) (source after : Source) (second : Option Reply) :
    (ofChange recipe source after second).isVisit = true := by
  unfold ofChange
  split
  · rfl
  split
  · rfl
  · split <;> rfl

theorem outcome_of_error (recipe : String) (source : Source) {e : Error} (h : e ≠ .cancelled)
    (second : Option Reply) : outcome recipe source (visited (.error e) second) = .failed e := by
  cases e <;> first | rfl | exact absurd rfl h

/-- A file is only ever changed by its first visit, and stays the same file. -/
theorem of_outcome_changed {recipe : String} {source after : Source} {e : Encounter}
    (h : e.outcome recipe source = .changed after) :
    SameFile after source ∧ ∃ second, e = visited (.ok (.changed after)) second := by
  cases e with
  | late => cases h
  | passed => cases h
  | visited first second =>
    cases first with
    | error e =>
      by_cases hc : e = .cancelled
      · subst hc
        cases h
      · rw [outcome_of_error recipe source hc] at h
        cases h
    | ok v =>
      cases v with
      | unchanged => cases h
      | changed b =>
        obtain ⟨rfl, same⟩ := ofChange_eq_changed h
        exact ⟨same, second, rfl⟩

/-- The outcomes of visits are those that count as such, unless the visit was cancelled. -/
theorem isVisit_outcome {recipe : String} {source : Source} {e : Encounter}
    (h : (e.outcome recipe source).isCancelled = false) : (e.outcome recipe source).isVisit = e.isVisit := by
  cases e with
  | late => cases h
  | passed => rfl
  | visited first second =>
    cases first with
    | error e =>
      by_cases hc : e = .cancelled
      · subst hc
        cases h
      · rw [outcome_of_error recipe source hc]
        rfl
    | ok v =>
      cases v with
      | unchanged => rfl
      | changed b => exact isVisit_ofChange recipe source b second

theorem isCancelled_outcome_visited (recipe : String) (source : Source) {first : Reply} (h : first ≠ .error .cancelled)
    (second : Option Reply) : (outcome recipe source (visited first second)).isCancelled = false := by
  cases first with
  | error e =>
    rw [outcome_of_error recipe source fun he => h (congrArg _ he)]
    rfl
  | ok v =>
    cases v with
    | unchanged => rfl
    | changed after => exact Outcome.isCancelled_of_isVisit (isVisit_ofChange recipe source after second)

theorem outcome_of_cancelled (recipe : String) (source : Source) (second : Option Reply) :
    outcome recipe source (visited (.error .cancelled) second) = .cancelled := rfl

end Encounter

theorem toRevisit?_eq_some {config : PipelineConfig} {source after : Source} {first : Reply}
    (h : toRevisit? config source first = some after) :
    first = .ok (.changed after) ∧ config.checkIdempotence = true ∧ SameAs.same after source = false ∧
      checkConsistent source after = .ok () := by
  match first, h with
  | .ok (.changed after'), h =>
    rw [toRevisit?_changed] at h
    split at h
    · next hc =>
      obtain rfl := Option.some.inj h
      cases hk : checkConsistent source after' <;> simp_all [Except.toBool]
    · cases h

/-- A second visit that fails is the failure of the file's turn. -/
theorem Meets.outcome_of_objection {config : PipelineConfig} {stage : Stage} {source : Source} {first : Reply}
    {e : Error} (h : Meets config stage source (.visited first (some (.error e)))) :
    Encounter.outcome stage.name source (.visited first (some (.error e))) = .failed e := by
  cases h with
  | revisited _ _ _ twice _ =>
    obtain ⟨rfl, _, differs, consistent⟩ := toRevisit?_eq_some twice
    simp [Encounter.outcome, Encounter.ofChange, Encounter.objection?, differs, consistent]

theorem run_encounter_late (config : PipelineConfig) (stage : Stage) (source : Source) {s : Session}
    (h : s.context.cancelled = true) : (encounter config stage source).run s = (.late, s) := by
  simp [encounter, h]
  rfl

theorem run_encounter_passed (config : PipelineConfig) (stage : Stage) {source : Source} {s : Session}
    (h : s.context.cancelled = false) (refused : ∀ v ∈ stage.visitor, v.accepts source = false) :
    (encounter config stage source).run s = (.passed, s) := by
  cases hv : stage.visitor with
  | none => simp [encounter, h, hv]; rfl
  | some v => simp [encounter, h, hv, refused v hv]; rfl

theorem run_encounter_visited (config : PipelineConfig) (stage : Stage) {source : Source} {s s₁ : Session}
    {v : SourceVisitor} {first : Reply} (h : s.context.cancelled = false) (visitor : stage.visitor = some v)
    (accepted : v.accepts source = true)
    (answered : (guarded stage.name source.path (v.visit source)).run s = (first, s₁))
    (once : toRevisit? config source first = none) :
    (encounter config stage source).run s = (.visited first none, s₁) := by
  simp only [encounter, visitor, accepted, Bool.not_true, Bool.false_eq_true, if_false, bind_pure_comp,
    StateT.run_bind, StateT.run_get, pure_bind, h]
  rw [answered]
  simp only [bind, once, StateT.run_pure]
  rfl

theorem run_encounter_revisited (config : PipelineConfig) (stage : Stage) {source after : Source}
    {s s₁ s₂ : Session} {v : SourceVisitor} {first second : Reply} (h : s.context.cancelled = false)
    (visitor : stage.visitor = some v) (accepted : v.accepts source = true)
    (answered : (guarded stage.name source.path (v.visit source)).run s = (first, s₁))
    (twice : toRevisit? config source first = some after)
    (again : (guarded stage.name after.path (v.visit after)).run s₁ = (second, s₂)) :
    (encounter config stage source).run s = (.visited first (some second), s₂) := by
  simp only [encounter, visitor, accepted, Bool.not_true, Bool.false_eq_true, if_false, bind_pure_comp,
    StateT.run_bind, StateT.run_get, pure_bind, h]
  rw [answered]
  simp only [bind, twice, StateT.run_map]
  rw [again]
  rfl

theorem meets_encounter (config : PipelineConfig) (stage : Stage) (source : Source) (s : Session) :
    Meets config stage source ((encounter config stage source).run s).1 := by
  cases h : s.context.cancelled with
  | true =>
    rw [run_encounter_late config stage source h]
    exact .late
  | false =>
    by_cases refused : ∀ v ∈ stage.visitor, v.accepts source = false
    · rw [run_encounter_passed config stage h refused]
      exact .passed refused
    · simp only [Classical.not_forall, Bool.not_eq_false] at refused
      obtain ⟨v, visitor, accepted⟩ := refused
      obtain ⟨⟨first, s₁⟩, answered⟩ : ∃ p, (guarded stage.name source.path (v.visit source)).run s = p := ⟨_, rfl⟩
      cases hr : toRevisit? config source first with
      | none =>
        rw [run_encounter_visited config stage h visitor accepted answered hr]
        exact .visited visitor accepted ⟨s, congrArg Prod.fst answered⟩ hr
      | some after =>
        obtain ⟨⟨second, s₂⟩, again⟩ : ∃ p, (guarded stage.name after.path (v.visit after)).run s₁ = p := ⟨_, rfl⟩
        rw [run_encounter_revisited config stage h visitor accepted answered hr again]
        exact .revisited visitor accepted ⟨s, congrArg Prod.fst answered⟩ hr ⟨s₁, congrArg Prod.fst again⟩

end Emend.Pipeline
