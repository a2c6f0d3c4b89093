import Emend.Proofs.Markup.Marks
import Emend.Proofs.Pipeline.Accounts
import Emend.Proofs.Pipeline.Stages
import Emend.Proofs.Recipes.Idempotence
import Mathlib.Data.List.Dedup

/-! # Searches in a run

A search marks the elements it selects in which nothing was found as yet, and leaves all else as it is. So of several
searches in a run the first one that selects an element is the one it is found by (`run_searches`).
-/

namespace Emend

def Outcome.after (source : Source) : Outcome → Source
  | changed after => after
  | skipped | unchanged | failed _ | cancelled => source

theorem FileResult.after_amend (recipe : String) (f : FileResult) (o : Outcome) :
    (f.amend recipe o).after = o.after f.after := by
  cases o <;> rfl

namespace Recipes

open Markup Pipeline

namespace TagSearch

def selects (r : TagSearch) (σ : Spot) : Bool := r.path.selects σ.ancestors σ.name

def markSpot (r : TagSearch) (σ : Spot) : Spot :=
  if r.selects σ && σ.found.isEmpty then { σ with found := [some r.expression] } else σ

def markAll : List TagSearch → Spot → Spot
  | [], σ => σ
  | r :: rs, σ => markAll rs (r.markSpot σ)

/-- The expressions of the searches for an element, in the order of the searches. -/
def selecting (searches : List TagSearch) (σ : Spot) : List String :=
  (searches.filter (·.selects σ)).map (·.expression)

theorem markAll_of_found (searches : List TagSearch) {σ : Spot} (h : σ.found ≠ []) : markAll searches σ = σ := by
  induction searches with
  | nil => rfl
  | cons r rs ih =>
    have kept : r.markSpot σ = σ := if_neg fun marks => h (List.isEmpty_iff.1 (Bool.and_eq_true_iff.1 marks).2)
    rw [markAll, kept, ih]

/-- An element is found by the first search that selects it, and by no other. -/
theorem markAll_of_unfound (searches : List TagSearch) {σ : Spot} (h : σ.found = []) :
    markAll searches σ = { σ with found := ((selecting searches σ).take 1).map some } := by
  induction searches with
  | nil =>
    rw [selecting, List.filter_nil, List.map_nil, List.take_nil, List.map_nil, ← h]
    rfl
  | cons r rs ih =>
    rw [markAll, markSpot, h, List.isEmpty_nil, Bool.and_true]
    by_cases selected : r.selects σ = true
    · have first : selecting (r :: rs) σ = r.expression :: selecting rs σ := by
        rw [selecting, List.filter_cons, if_pos selected]
        rfl
      rw [if_pos selected, first]
      exact markAll_of_found rs (List.cons_ne_nil _ _)
    · have passed : selecting (r :: rs) σ = selecting rs σ := by
        rw [selecting, List.filter_cons, if_neg selected]
        rfl
      rw [if_neg selected, passed, ih]

structure MarkedTree (f : Spot → Spot) (ancestors : List String) (t u : Tag) : Prop where
  bare : u.bare = t.bare
  spots : u.spots ancestors = (t.spots ancestors).map f

/-- An element is marked if its content is, and if it has the marks that it should have itself. -/
theorem MarkedTree.of_content {f : Spot → Spot} {ancestors : List String} {t : Tag} {markers : List Marker}
    {content : Option (List Content)} (others : otherMarkers markers = otherMarkers t.markers)
    (found : f ⟨ancestors, t.name, foundAs t.markers⟩ = ⟨ancestors, t.name, foundAs markers⟩)
    (bare : Content.bareBody content = Content.bareBody t.content)
    (spots : Content.spotsBody (ancestors ++ [t.name]) content =
      (Content.spotsBody (ancestors ++ [t.name]) t.content).map f) :
    MarkedTree f ancestors t { t with markers, content } where
  bare := by rw [Tag.bare_eq, Tag.bare_eq, others, bare]
  spots := by rw [Tag.spots_eq, Tag.spots_eq, spots, List.map_cons, found]

structure Marked (f : Spot → Spot) (d e : Document) : Prop where
  bare : e.bare = d.bare
  spots : e.root.spots [] = (d.root.spots []).map f

theorem Marked.path {f : Spot → Spot} {d e : Document} (h : Marked f d e) : e.path = d.path := by
  have path : e.bare.path = d.bare.path := congrArg Document.path h.bare
  exact path

theorem Marked.kind {f : Spot → Spot} {d e : Document} (h : Marked f d e) : e.kind = d.kind := by
  have kind : e.bare.kind = d.bare.kind := congrArg Document.kind h.bare
  exact kind

def MarkedFile (f : Spot → Spot) (a b : Source) : Prop :=
  ∀ d, a = .markup d → d.kind.isA .xml = true → ∃ e, b = .markup e ∧ Marked f d e

theorem Marked.markedFile {f : Spot → Spot} {d e : Document} (h : Marked f d e) :
    MarkedFile f (.markup d) (.markup e) := by
  rintro _ ⟨⟩ -
  exact ⟨e, rfl, h⟩

theorem MarkedFile.refl (a : Source) : MarkedFile (markAll []) a a := by
  rintro d rfl -
  exact ⟨d, rfl, rfl, (List.map_id _).symm⟩

theorem MarkedFile.trans {r : TagSearch} {rs : List TagSearch} {a b c : Source} (first : MarkedFile r.markSpot a b)
    (rest : MarkedFile (markAll rs) b c) : MarkedFile (markAll (r :: rs)) a c := by
  rintro d rfl hk
  obtain ⟨e, rfl, he⟩ := first d rfl hk
  obtain ⟨e', rfl, he'⟩ := rest e rfl (by rwa [he.kind])
  refine ⟨e', rfl, he'.bare.trans he.bare, ?_⟩
  rw [he'.spots, he.spots, List.map_map]
  rfl

section Visit

variable (r : TagSearch)

theorem mapM_attr (place : Place) (as : List Attribute) :
    as.mapM (Visit.result (r.visitor.attr place)) = (pure as : StateT Unit Visiting (List Attribute)) := by
  have each (a : Attribute) : Visit.result (r.visitor.attr place) a = pure a := rfl
  rw [funext each, List.mapM_pure, List.map_id']

theorem markSpot_eq (place : Place) (t : Tag) :
    r.markSpot ⟨place.ancestors, t.name, foundAs t.markers⟩ =
      if place.selectedBy r.path t && !hasSearchResult t.markers then
        ⟨place.ancestors, t.name, [some r.expression]⟩
      else ⟨place.ancestors, t.name, foundAs t.markers⟩ := by
  rw [hasSearchResult_eq, Bool.not_not]
  rfl

theorem foundAs_eq_nil {markers : List Marker} (h : (!hasSearchResult markers) = true) : foundAs markers = [] := by
  rw [hasSearchResult_eq, Bool.not_not] at h
  exact List.isEmpty_iff.1 h

mutual

theorem finishes_rebuildTag (place : Place) (t : Tag) :
    Finishes (r.visitor.rebuildTag place t) fun u => ∃ content, u = { t with content } ∧
      Content.bareBody content = Content.bareBody t.content ∧
      Content.spotsBody (place.ancestors ++ [t.name]) content =
        (Content.spotsBody (place.ancestors ++ [t.name]) t.content).map r.markSpot := by
  obtain ⟨id, leading, markers, name, attributes, content, closing, beforeClose⟩ := t
  rw [Visitor.rebuildTag]
  refine Finishes.checkpoint.bind fun _ _ => ?_
  dsimp only
  rw [r.mapM_attr, pure_bind]
  cases content with
  | none =>
    dsimp only
    rw [pure_bind]
    exact .pure ⟨none, rfl, rfl, rfl⟩
  | some items =>
    dsimp only
    rw [bind_map_left]
    refine (finishes_rebuildItems (place.enter name) items).bind fun ds hds => .pure ⟨some ds, rfl, ?_, hds.2⟩
    exact congrArg some hds.1

theorem finishes_rebuildItems (place : Place) (cs : List Content) :
    Finishes (r.visitor.rebuildItems place cs) fun ds => Content.bareAll ds = Content.bareAll cs ∧
      Content.spotsAll place.ancestors ds = (Content.spotsAll place.ancestors cs).map r.markSpot := by
  cases cs with
  | nil => exact .pure ⟨rfl, rfl⟩
  | cons c cs =>
    rw [Visitor.rebuildItems]
    refine (finishes_rebuildContent place c).bind fun d hd => ?_
    refine (finishes_rebuildItems place cs).bind fun ds hds => .pure ⟨congrArg₂ List.cons hd.1 hds.1, ?_⟩
    rw [Content.spotsAll, Content.spotsAll, hd.2, hds.2, List.map_append]

theorem finishes_rebuildContent (place : Place) (c : Content) :
    Finishes (r.visitor.rebuildContent place c) fun d => d.bare = c.bare ∧
      d.spots place.ancestors = (c.spots place.ancestors).map r.markSpot := by
  cases c with
  | tag t =>
    rw [Settling.rebuildContent_tag]
    exact (finishes_onElement place t).map fun u hu => ⟨congrArg Content.tag hu.bare, hu.spots⟩
  | charData _ | comment _ | instruction _ =>
    rw [r.settling.hooksElements.rebuildContent_of_leaf place rfl]
    exact .pure ⟨rfl, rfl⟩

theorem finishes_onElement (place : Place) (t : Tag) :
    Finishes (onElement r.visitor place t) (MarkedTree r.markSpot place.ancestors t) := by
  rw [r.onElement_eq]
  refine (finishes_rebuildTag place t).bind ?_
  rintro _ ⟨content, rfl, bare, spots⟩
  have self := r.markSpot_eq place t
  by_cases found : (place.selectedBy r.path t && !hasSearchResult t.markers) = true
  · rw [if_pos found] at self ⊢
    refine Finishes.fresh fun s => MarkedTree.of_content (otherMarkers_concat t.markers ⟨s.next⟩ _) ?_ bare spots
    have unfound : foundAs t.markers = [] := foundAs_eq_nil (Bool.and_eq_true_iff.1 found).2
    rw [self, foundAs_concat, unfound, List.nil_append]
  · rw [if_neg found] at self ⊢
    exact .pure (MarkedTree.of_content rfl self bare spots)

end

theorem rebuildProlog_eq (place : Place) (p : Prolog) : r.visitor.rebuildProlog place p = pure p := by
  have each (d : Declaration) : r.visitor.rebuildDeclaration place d = pure d := by
    rw [Visitor.rebuildDeclaration, r.mapM_attr]
    rfl
  rw [r.settling.hooksElements.rebuildProlog_eq, funext each]
  cases p with
  | mk id declaration misc => cases declaration <;> rfl

theorem finishes_visit (d : Document) :
    Finishes (r.visitor.visit d) fun x => Marked r.markSpot d (x.getD d) ∧
      Finishes (r.visitor.visit (x.getD d)) (· = .unchanged) := by
  have marks : Finishes (r.visitor.visit d) fun x => Marked r.markSpot d (x.getD d) := by
    rw [r.settling.visit_eq, r.settling.hooksElements.rebuildDocument_eq, r.rebuildProlog_eq]
    refine Finishes.map (P := Marked r.markSpot d) ?_ fun e he => by rwa [Visit.getD_of_eq]
    refine Finishes.checkpoint.bind fun _ _ => ?_
    rw [pure_bind]
    refine (r.finishes_onElement (Visitor.placeOf d) d.root).bind fun u hu => .pure ⟨?_, hu.spots⟩
    exact congrArg (fun root => { d with root }) hu.bare
  exact (marks.and (r.settling.finishes_visit d)).mono fun x hx => ⟨hx.1, hx.2.2⟩

end Visit

def stage (r : TagSearch) : Stage := ⟨TagSearch.name, some (.ofMarkup r.visitor ()), [TagSearch.name]⟩

theorem exists_visit (r : TagSearch) {d : Document} (hk : d.kind.isA .xml = true) {s : Session}
    (hs : s.context.cancelled = false) :
    ∃ x s' e, ((SourceVisitor.ofMarkup r.visitor ()).visit (.markup d)).run.run s = (.ok x, s') ∧
      s'.context.cancelled = false ∧ x.getD (.markup d) = .markup e ∧ Marked r.markSpot d e ∧
      ∀ t : Session, t.context.cancelled = false → ∃ t',
        ((SourceVisitor.ofMarkup r.visitor ()).visit (.markup e)).run.run t = (.ok .unchanged, t') ∧
          t'.context.cancelled = false := by
  obtain ⟨x, s', hrun, hs', marked, again⟩ := r.finishes_visit d s hs
  refine ⟨_, s', x.getD d, run_ofMarkup hk hrun, hs', Settling.getD_settle_markup marked.path, marked, fun t ht => ?_⟩
  obtain ⟨_, t', hrun', ht', rfl⟩ := again t ht
  exact ⟨t', run_ofMarkup (by rwa [marked.kind]) hrun', ht'⟩

/-- A change that nothing is held against is kept. -/
theorem outcome_of_marked (recipe : String) (second : Option Reply) {f : Spot → Spot} {d e : Document}
    {x : Visit Source} (marked : Marked f d e) (after : x.getD (.markup d) = .markup e)
    (unobjected : second.bind (Encounter.objection? recipe (.markup e)) = none) :
    let o := Encounter.outcome recipe (.markup d) (.visited (.ok x) second)
    (o.error? = none ∧ o.isCancelled = false) ∧ o.after (.markup d) = .markup e := by
  cases x with
  | unchanged => exact ⟨⟨rfl, rfl⟩, after⟩
  | changed y =>
    obtain rfl : y = .markup e := after
    rw [Encounter.outcome, Encounter.ofChange]
    by_cases same : SameAs.same (Source.markup e) (.markup d) = true
    · obtain rfl := eq_of_same_markup marked.path same
      rw [if_pos same]
      exact ⟨⟨rfl, rfl⟩, rfl⟩
    · have sameFile : SameFile (.markup e) (.markup d) :=
        ⟨marked.kind, beq_iff_eq.2 (congrArg FilePath.components marked.path)⟩
      rw [if_neg same, checkConsistent_eq_ok.2 sameFile, unobjected]
      exact ⟨⟨rfl, rfl⟩, rfl⟩

/-- A document is visited, and once more if that is asked for: then nothing is held against the change. -/
theorem exists_visited (r : TagSearch) (config : PipelineConfig) {d : Document} (hk : d.kind.isA .xml = true)
    {s : Session} (hs : s.context.cancelled = false) :
    ∃ x second s' e, (encounter config r.stage (.markup d)).run s = (.visited (.ok x) second, s') ∧
      s'.context.cancelled = false ∧ x.getD (.markup d) = .markup e ∧ Marked r.markSpot d e ∧
      second.bind (Encounter.objection? r.stage.name (.markup e)) = none := by
  let v := SourceVisitor.ofMarkup r.visitor ()
  have visitor : r.stage.visitor = some v := rfl
  obtain ⟨x, s₁, e, hrun, hs₁, after, marked, again⟩ := r.exists_visit hk hs
  have first : (guarded r.stage.name d.path (v.visit (.markup d))).run s = (.ok x, s₁) := by
    rw [run_guarded, hrun]
    rfl
  cases hr : toRevisit? config (.markup d) (.ok x) with
  | none =>
    exact ⟨x, none, s₁, e, run_encounter_visited config r.stage hs visitor hk first hr, hs₁, after, marked, rfl⟩
  | some y =>
    -- what is visited again is the changed document, which is left as it is
    obtain rfl : x = .changed y := Except.ok.inj (toRevisit?_eq_some hr).1
    have changed : y = .markup e := after
    subst changed
    obtain ⟨s₂, hrun', hs₂⟩ := again s₁ hs₁
    have second : (guarded r.stage.name e.path (v.visit (.markup e))).run s₁ = (.ok .unchanged, s₂) := by
      rw [run_guarded, hrun']
      rfl
    exact ⟨_, some (.ok .unchanged), s₂, e, run_encounter_revisited config r.stage hs visitor hk first hr second, hs₂,
      after, marked, rfl⟩

theorem exists_encounter (r : TagSearch) (config : PipelineConfig) (source : Source) {s : Session}
    (hs : s.context.cancelled = false) :
    ∃ e s', (encounter config r.stage source).run s = (e, s') ∧ s'.context.cancelled = false ∧
      e.Harmless r.stage source ∧ MarkedFile r.markSpot source ((e.outcome r.stage.name source).after source) := by
  by_cases accepted : (SourceVisitor.ofMarkup r.visitor ()).accepts source = true
  · cases source with
    | text t => cases accepted
    | markup d =>
      obtain ⟨x, second, s', e, hrun, hs', after, marked, unobjected⟩ := r.exists_visited config accepted hs
      obtain ⟨harmless, kept⟩ := outcome_of_marked r.stage.name second marked after unobjected
      refine ⟨_, s', hrun, hs', harmless, ?_⟩
      rw [kept]
      exact marked.markedFile
  · have refused (v : SourceVisitor) (hv : v ∈ r.stage.visitor) : v.accepts source = false := by
      obtain rfl := Option.some.inj hv
      exact eq_false_of_ne_true accepted
    refine ⟨_, s, run_encounter_passed config r.stage hs refused, hs, ⟨rfl, rfl⟩, ?_⟩
    rintro d rfl hk
    exact absurd hk accepted

def pipeline (searches : List TagSearch) (config : PipelineConfig) : Pipeline where
  recipes := searches.map (·.recipe)
  stages := searches.map (·.stage)
  config := config

theorem listingAll_recipes (searches : List TagSearch) :
    Stage.listingAll [] (searches.map (·.recipe)) = searches.map (·.stage) := by
  induction searches with
  | nil => rfl
  | cons r rs ih =>
    rw [List.map_cons, List.map_cons, Stage.listingAll, ih]
    rfl

theorem build_recipes (searches : List TagSearch) (config : PipelineConfig) :
    Pipeline.build (searches.map (·.recipe)) config = .ok (pipeline searches config) := by
  have chains (s : Stage) (hs : s ∈ Stage.listingAll [] (searches.map (·.recipe))) : s.chain = [TagSearch.name] := by
    rw [listingAll_recipes] at hs
    obtain ⟨r, -, rfl⟩ := List.mem_map.1 hs
    rfl
  have new (s : Stage) (hs : s ∈ Stage.listingAll [] (searches.map (·.recipe))) : s.name ∉ s.chain.dropLast := by
    rw [chains s hs]
    exact List.not_mem_nil
  obtain ⟨s, hs, long, -⟩ | ⟨-, built⟩ := Pipeline.build_of_new new config
  · rw [chains s hs] at long
    exact absurd long (by decide)
  · rw [built, listingAll_recipes]
    rfl

/-- What a file comes to in the stage of a search. -/
def Met (stage : Stage) (source : Source) (e : Encounter) : Prop :=
  e.Harmless stage source ∧
    ∀ r : TagSearch, stage = r.stage → MarkedFile r.markSpot source ((e.outcome stage.name source).after source)

theorem met_invariant (searches : List TagSearch) (config : PipelineConfig) :
    Invariant (pipeline searches config) (fun s => s.context.cancelled = false) Met where
  met stage hstage source s hs := by
    obtain ⟨r, -, rfl⟩ := List.mem_map.1 hstage
    -- a stage does not tell which search it was made from
    have each (q : TagSearch) (same : r.stage = q.stage) :
        let e := ((encounter config r.stage source).run s).1
        e.Harmless r.stage source ∧ MarkedFile q.markSpot source ((e.outcome r.stage.name source).after source) := by
      obtain ⟨e, s', hrun, -, met⟩ := q.exists_encounter config source hs
      rw [same, hrun]
      exact met
    exact ⟨(each r rfl).1, fun q same => (each q same).2⟩
  encounter stage hstage source s hs := by
    obtain ⟨r, -, rfl⟩ := List.mem_map.1 hstage
    obtain ⟨e, s', hrun, hs', -⟩ := r.exists_encounter config source hs
    exact (congrArg (·.2.context.cancelled) hrun).trans hs'
  progress _ _ hs := hs
  tell failures s hs := (s.cancelled_tell failures).trans hs

theorem marked_of_follows {config : PipelineConfig} {stages : List Stage} {files : List FileResult}
    {rounds : List Round} (h : Follows config Met stages files rounds) {searches : List TagSearch}
    (all : rounds.map Round.stage = searches.map (·.stage)) {i : Nat} {before after : FileResult}
    (hbefore : files[i]? = some before) (hafter : (resultsAfter files rounds)[i]? = some after) :
    after.failures = before.failures ∧ MarkedFile (markAll searches) before.after after.after := by
  -- by induction on the rounds; each has an encounter as `Met` says, and takes the first search off the list
  refine h.at_index (P := fun f rounds g => (∀ r ∈ rounds, ∀ t ∈ r.turns, Met r.stage t.file.after t.encounter) →
    ∀ searches, rounds.map Round.stage = searches.map (·.stage) →
      g.failures = f.failures ∧ MarkedFile (markAll searches) f.after g.after) ?nil ?cons hbefore hafter
    (fun r hr t ht => h.met hr ht) searches all
  case nil =>
    intro f _ searches none
    obtain rfl := List.map_eq_nil_iff.1 none.symm
    exact ⟨rfl, .refl f.after⟩
  case cons =>
    intro r rounds t g ht ih met searches all
    obtain ⟨q, qs, rfl, stage, behind⟩ := List.map_eq_cons_iff.1 all.symm
    obtain ⟨here, later⟩ := List.forall_mem_cons.1 met
    obtain ⟨⟨unfailed, -⟩, marked⟩ := here t (List.mem_of_getElem? ht)
    obtain ⟨failures, rest⟩ := ih later qs behind.symm
    refine ⟨?_, MarkedFile.trans (marked q stage.symm) ?_⟩
    · rw [failures, Round.amended, FileResult.failures_amend, FileResult.failure?,
        show (r.outcome t).error? = none from unfailed]
      exact List.append_nil _
    · rw [Round.amended, FileResult.after_amend] at rest
      exact rest

theorem after_conclude_of_marked {f : Spot → Spot} {g : FileResult} {d e : Document} (marked : Marked f d e)
    (before : g.before = .markup d) (after : g.after = .markup e) : (conclude g).after = .markup e := by
  unfold conclude
  split
  · next same =>
    rw [before, after] at same
    obtain rfl := eq_of_same_markup marked.path same
    exact before
  · exact after

/-- A run of searches comes to its end, and marks the elements of a document as the searches do one after the other. -/
theorem run_searches (searches : List TagSearch) (config : PipelineConfig) (sources : List Source) {s : Session}
    (hs : s.context.cancelled = false) :
    ∃ result s', (run (pipeline searches config) sources).run.run s = (.ok result, s') ∧ result.cancelled = false ∧
      ∀ (i : Nat) (d : Document), sources[i]? = some (.markup d) → d.kind.isA .xml = true →
        ∃ f e, result.results[i]? = some f ∧ f.failures = [] ∧ f.after = .markup e ∧ Marked (markAll searches) d e := by
  let p := pipeline searches config
  have inv := met_invariant searches config
  obtain ⟨all, result, s', hrun, results, going⟩ := inv.run_of_harmless (fun _ _ _ met => met.1) sources hs
  refine ⟨result, s', hrun, going, fun i d hi hk => ?_⟩
  have follows := inv.follows sources hs
  have befores := follows.map_before.2.trans (map_before_start sources)
  obtain ⟨g, hg, before⟩ : ∃ g, (resultsAfter (sources.map FileResult.start) (rounds p sources s))[i]? = some g ∧
      g.before = .markup d := by
    rw [← befores, List.getElem?_map, Option.map_eq_some_iff] at hi
    exact hi
  have start : (sources.map FileResult.start)[i]? = some (.start (.markup d)) := by
    rw [List.getElem?_map, hi, Option.map_some]
  obtain ⟨failures, marks⟩ := marked_of_follows follows all start hg
  obtain ⟨e, after, marked⟩ := marks d rfl hk
  refine ⟨conclude g, e, ?_, (failures_conclude g).trans failures, after_conclude_of_marked marked before after, marked⟩
  rw [results, List.getElem?_map, hg, Option.map_some]

/-- The distinct expressions of the searches for an element. -/
def matching (searches : List TagSearch) (σ : Spot) : List String := (selecting searches σ).dedup

/-- The element found once by each expression that selects it, and by nothing else. -/
def foundByAll (searches : List TagSearch) (σ : Spot) : Spot := { σ with found := (matching searches σ).map some }

theorem take_one_eq_dedup {es : List String} (h : es.dedup.length ≤ 1) : es.take 1 = es.dedup := by
  cases es with
  | nil => rfl
  | cons e es =>
    have first : e ∈ (e :: es).dedup := List.mem_dedup.2 List.mem_cons_self
    match hd : (e :: es).dedup, h with
    | [], _ => exact absurd (hd ▸ first) List.not_mem_nil
    | [e'], _ =>
      rw [hd, List.mem_singleton] at first
      rw [first]
      rfl

theorem matching_of_perm {searches order : List TagSearch} (h : order.Perm searches) {σ : Spot}
    (apart : (matching searches σ).length ≤ 1) : matching order σ = matching searches σ := by
  have perm : (matching order σ).Perm (matching searches σ) := ((h.filter _).map _).dedup
  match hm : matching searches σ, apart with
  | [], _ => exact (hm ▸ perm).eq_nil
  | [e], _ => exact List.perm_singleton.1 (hm ▸ perm)

/-- Nothing was found as yet in an element that searches of one expression are for: in whatever order they come, it
is found by that expression. -/
theorem markAll_eq_foundByAll {searches order : List TagSearch} (h : order.Perm searches) {σ : Spot}
    (unfound : σ.found = []) (apart : (matching searches σ).length ≤ 1) :
    markAll order σ = foundByAll searches σ := by
  have same := matching_of_perm h apart
  have fewer : (matching order σ).length ≤ 1 := by rwa [same]
  have once : (selecting order σ).take 1 = matching order σ := take_one_eq_dedup fewer
  rw [markAll_of_unfound order unfound, once, same]
  rfl

/-- In whatever order the searches come, an element is found once by each expression that selects it and by nothing
else, unless two different expressions do. -/
theorem searches_mark_every_match {path : FilePath} {text : String} {ids ids' : Supply} {d : Document}
    (parsed : (Document.parse path text).run.run ids = (.ok d, ids')) {searches order : List TagSearch}
    (reordered : order.Perm searches) (config : PipelineConfig) :
    ∃ p, Pipeline.build (order.map (·.recipe)) config = .ok p ∧
      ∀ sources s, s.context.cancelled = false → ∃ result s', (run p sources).run.run s = (.ok result, s') ∧
        result.cancelled = false ∧ ∀ i : Nat, sources[i]? = some (.markup d) → ∃ f e, result.results[i]? = some f ∧
          f.failures = [] ∧ f.after = .markup e ∧ e.print = d.print ∧ e.bare = d.bare ∧
          ∀ (j : Nat) (σ : Spot), (d.root.spots [])[j]? = some σ → (matching searches σ).length ≤ 1 →
            (e.root.spots [])[j]? = some (foundByAll searches σ) := by
  refine ⟨_, build_recipes order config, fun sources s hs => ?_⟩
  obtain ⟨result, s', hrun, going, marks⟩ := run_searches order config sources hs
  refine ⟨result, s', hrun, going, fun i hi => ?_⟩
  obtain ⟨f, e, hf, failures, after, marked⟩ := marks i d hi (isA_xml_of_parse parsed)
  refine ⟨f, e, hf, failures, after, ?_, marked.bare, fun j σ hσ apart => ?_⟩
  · rw [← e.print_bare, marked.bare, d.print_bare]
  · have unfound : σ.found = [] := found_eq_nil_of_parse parsed (List.mem_of_getElem? hσ)
    rw [marked.spots, List.getElem?_map, hσ, Option.map_some, markAll_eq_foundByAll reordered unfound apart]

theorem exists_parsed {path : FilePath} {text : String} {spots : List Spot}
    (h : ((Document.parse path text).run.run {}).1.toOption.map (·.root.spots []) = some spots) :
    ∃ d ids', (Document.parse path text).run.run {} = (.ok d, ids') ∧ d.root.spots [] = spots := by
  obtain ⟨⟨result, ids'⟩, hrun⟩ : ∃ x, (Document.parse path text).run.run {} = x := ⟨_, rfl⟩
  rw [hrun] at h
  cases result with
  | error e => cases h
  | ok d => exact ⟨d, ids', hrun, Option.some.inj h⟩

def rootThenItems : List TagSearch :=
  [⟨"/a", ⟨"/a", true, ["a"]⟩⟩, ⟨"//b", ⟨"//b", false, ["b"]⟩⟩, ⟨"//b", ⟨"//b", false, ["b"]⟩⟩]

theorem searches_mark_every_match_rootThenItems :
    ∃ d ids' result s' f e, (Document.parse ⟨"a.xml"⟩ "<a><b/>x<b/></a>").run.run {} = (.ok d, ids') ∧
      d.root.spots [] = [⟨[], "a", []⟩, ⟨["a"], "b", []⟩, ⟨["a"], "b", []⟩] ∧
      rootThenItems.reverse.Perm rootThenItems ∧ ∃ p, Pipeline.build (rootThenItems.reverse.map (·.recipe)) {} = .ok p ∧
        (run p [.markup d]).run.run {} = (.ok result, s') ∧ result.results[0]? = some f ∧ f.after = .markup e ∧
        e.print = d.print ∧ (e.root.spots [])[0]? = some ⟨[], "a", [some "/a"]⟩ ∧
        (e.root.spots [])[1]? = some ⟨["a"], "b", [some "//b"]⟩ ∧
        (e.root.spots [])[2]? = some ⟨["a"], "b", [some "//b"]⟩ := by
  obtain ⟨d, ids', parsed, spots⟩ : ∃ d ids', (Document.parse ⟨"a.xml"⟩ "<a><b/>x<b/></a>").run.run {} = (.ok d, ids') ∧
      d.root.spots [] = [⟨[], "a", []⟩, ⟨["a"], "b", []⟩, ⟨["a"], "b", []⟩] := exists_parsed (by decide +kernel)
  obtain ⟨p, built, runs⟩ := searches_mark_every_match parsed (List.reverse_perm rootThenItems) {}
  obtain ⟨result, s', hrun, -, marks⟩ := runs [.markup d] {} rfl
  obtain ⟨f, e, hf, -, after, print, -, found⟩ := marks 0 rfl
  rw [spots] at found
  have root : foundByAll rootThenItems ⟨[], "a", []⟩ = ⟨[], "a", [some "/a"]⟩ := by decide +kernel
  have item : foundByAll rootThenItems ⟨["a"], "b", []⟩ = ⟨["a"], "b", [some "//b"]⟩ := by decide +kernel
  refine ⟨d, ids', result, s', f, e, parsed, spots, List.reverse_perm _, p, built, hrun, hf, after, print, ?_, ?_, ?_⟩
  · exact root ▸ found 0 _ rfl (by decide +kernel)
  · exact item ▸ found 1 _ rfl (by decide +kernel)
  · exact item ▸ found 2 _ rfl (by decide +kernel)

def atRoot : TagSearch := ⟨"/a", ⟨"/a", true, ["a"]⟩⟩

def anywhere : TagSearch := ⟨"//a", ⟨"//a", false, ["a"]⟩⟩

/-- Both searches are for the one element there is, and it is found by the first one only. -/
theorem later_search_hidden :
    ∃ d ids', (Document.parse ⟨"a.xml"⟩ "<a/>").run.run {} = (.ok d, ids') ∧ d.root.spots [] = [⟨[], "a", []⟩] ∧
      matching [atRoot, anywhere] ⟨[], "a", []⟩ = ["/a", "//a"] ∧
      ∀ order ∈ [[atRoot, anywhere], [anywhere, atRoot]], ∃ p result s' f e,
        Pipeline.build (order.map (·.recipe)) {} = .ok p ∧ (run p [.markup d]).run.run {} = (.ok result, s') ∧
        result.results[0]? = some f ∧ f.after = .markup e ∧
        e.root.spots [] = [⟨[], "a", (order.take 1).map (some ·.expression)⟩] := by
  obtain ⟨d, ids', parsed, spots⟩ : ∃ d ids', (Document.parse ⟨"a.xml"⟩ "<a/>").run.run {} = (.ok d, ids') ∧
      d.root.spots [] = [⟨[], "a", []⟩] := exists_parsed (by decide +kernel)
  refine ⟨d, ids', parsed, spots, by decide +kernel, fun order horder => ?_⟩
  obtain ⟨result, s', hrun, -, marks⟩ := run_searches order {} [.markup d] (s := {}) rfl
  obtain ⟨f, e, hf, -, after, marked⟩ := marks 0 d rfl (isA_xml_of_parse parsed)
  refine ⟨_, result, s', f, e, build_recipes order {}, hrun, hf, after, ?_⟩
  rw [marked.spots, spots, List.map_singleton]
  obtain rfl | horder := List.mem_cons.1 horder
  · decide +kernel
  · obtain rfl := List.mem_singleton.1 horder
    decide +kernel

end TagSearch
end Recipes
end Emend
