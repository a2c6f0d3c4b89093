import Emend.Proofs.Markup.Reached
import Emend.Proofs.Markup.TagPath
import Emend.Proofs.Pairing
import Emend.Proofs.Pom
import Emend.Proofs.Recipes.Revising

/-! # Upgrading dependencies

A visit gives dependencies their version and properties their value, and does so by what a summary of the document
says before anything is changed.
-/

namespace Emend

namespace Markup.TagPath

/-- Segments without a star stand for themselves. -/
theorem forall₂_stands_iff {segments names : List String} (plain : "*" ∉ segments) :
    List.Forall₂ Stands segments names ↔ names = segments := by
  induction segments generalizing names with
  | nil => rw [List.forall₂_nil_left_iff]
  | cons segment segments ih =>
    rw [List.mem_cons, not_or] at plain
    cases names with
    | nil => simp
    | cons name names =>
      rw [List.forall₂_cons, ih plain.2, List.cons.injEq, Stands, or_iff_right (Ne.symm plain.1), eq_comm]

theorem selects_root_iff {segments : List String} {expression : String} (some_segment : segments ≠ [])
    {ancestors : List String} {name : String} :
    selects ⟨expression, true, segments⟩ ancestors name = true ↔ List.Forall₂ Stands segments (ancestors ++ [name]) :=
  (selects_iff some_segment).trans (iff_of_eq (if_pos rfl))

end Markup.TagPath

namespace Recipes

open Markup

def dependencyPlaces : List (List String) :=
  [["project", "dependencies", "dependency"], ["project", "dependencyManagement", "dependencies", "dependency"]]

def propertiesPlace : List String := ["project", "properties"]

theorem propertyPath_selects {ancestors : List String} (name : String) :
    propertyPath.selects ancestors name = true ↔ ancestors = propertiesPlace := by
  have shown : ["project", "properties", "*"] = propertiesPlace ++ ["*"] := rfl
  have star : TagPath.Stands "*" name := .inl rfl
  rw [propertyPath, TagPath.selects_root_iff (List.cons_ne_nil _ _), shown, TagPath.forall₂_concat_iff,
    and_iff_left star]
  exact TagPath.forall₂_stands_iff (by decide)

namespace DependencyVersion

variable (r : DependencyVersion)

theorem dependencyPath_selects {ancestors : List String} {name : String} :
    (dependencyPath.selects ancestors name || managedPath.selects ancestors name) = true ↔
      ancestors ++ [name] ∈ dependencyPlaces := by
  rw [Bool.or_eq_true, dependencyPlaces, List.mem_cons, List.mem_singleton, dependencyPath, managedPath,
    TagPath.selects_root_iff (List.cons_ne_nil _ _), TagPath.selects_root_iff (List.cons_ne_nil _ _)]
  exact or_congr (TagPath.forall₂_stands_iff (by decide)) (TagPath.forall₂_stands_iff (by decide))

def edit (known : Known) : Edit := fun ancestors t =>
  if ancestors ++ [t.name] ∈ dependencyPlaces then (·.getD t) <$> r.upgrade known.pom t
  else if ancestors = propertiesPlace ∧ known.properties.contains t.name then (·.getD t) <$> setValue t r.version
  else return t

section

variable {known : Known} {ancestors : List String} {t u : Tag}

theorem edit_of_dependency (h : ancestors ++ [t.name] ∈ dependencyPlaces) :
    r.edit known ancestors t = (·.getD t) <$> r.upgrade known.pom t := if_pos h

theorem edit_of_property (h : ancestors = propertiesPlace) :
    r.edit known ancestors t =
      if known.properties.contains t.name then (·.getD t) <$> setValue t r.version else pure t := by
  have other : ancestors ++ [t.name] ∉ dependencyPlaces := by
    rw [h]
    simp [propertiesPlace, dependencyPlaces]
  rw [edit, if_neg other]
  exact if_congr (and_iff_right h) rfl rfl

theorem edit_of_other (h : ancestors ++ [t.name] ∉ dependencyPlaces) (h' : ancestors ≠ propertiesPlace) :
    r.edit known ancestors t = pure t := by
  rw [edit, if_neg h, if_neg fun both => h' both.1]

theorem idleAt_edit {path : List String} (h : path ∉ dependencyPlaces) (h' : path.dropLast ≠ propertiesPlace) :
    (r.edit known).IdleAt path := by
  rintro ancestors t rfl
  rw [List.dropLast_concat] at h'
  exact r.edit_of_other h h'

/-- Inside dependencies and properties nothing is done. -/
theorem edit_inside {name : String} (h : ancestors ++ [name] ∈ dependencyPlaces ∨ ancestors = propertiesPlace)
    (more : List String) (u : Tag) : r.edit known (ancestors ++ name :: more) u = pure u := by
  have split : ancestors ++ name :: more = ancestors ++ [name] ++ more := by rw [List.append_assoc]; rfl
  obtain h | rfl := h
  · rw [split]
    rw [dependencyPlaces, List.mem_cons, List.mem_singleton] at h
    obtain h | h := h
    all_goals
      rw [h]
      exact r.edit_of_other (by simp [dependencyPlaces]) (by simp [propertiesPlace])
  · exact r.edit_of_other (by simp [propertiesPlace, dependencyPlaces]) (by simp [propertiesPlace])

theorem isDirect_eq_true {pom : Option Pom} {t : Tag} :
    r.isDirect pom t = true ↔ ∃ c version, Coordinates.ofTag? t = some c ∧ c.version = some version ∧
      propertyReference? version = none ∧ r.selects pom c = true := by
  unfold isDirect
  split
  next none => simp [none]
  next c some =>
    split
    next none => simp [some, none]
    next version hversion => simp [some, hversion]

/-- What becomes of a dependency. -/
structure Upgraded (pom : Option Pom) (t u : Tag) : Prop where
  given : r.isDirect pom t = true → Tag.GivenChild "version" r.version t u
  kept : r.isDirect pom t = false → u = t

theorem getD_upgrade_of_direct {pom : Option Pom} {t u : Tag} {s : Supply} (direct : r.isDirect pom t = true)
    (run : ((t.withChildValue? "version" r.version).run s).1 = some u) : ((r.upgrade pom t).run s).1.getD t = u := by
  obtain ⟨s', run⟩ : ∃ s', (t.withChildValue? "version" r.version).run s = (some u, s') := ⟨_, Prod.ext run rfl⟩
  rw [upgrade, if_pos direct, StateT.run_bind, run]
  exact Visit.getD_of_eq t u

theorem getD_upgrade_of_not_direct {pom : Option Pom} {t : Tag} (indirect : r.isDirect pom t = false) (s : Supply) :
    ((r.upgrade pom t).run s).1.getD t = t := by
  rw [upgrade, if_neg (by rw [indirect]; exact Bool.false_ne_true)]
  rfl

theorem upgraded (pom : Option Pom) (t : Tag) (s : Supply) : r.Upgraded pom t (((r.upgrade pom t).run s).1.getD t) := by
  cases direct : r.isDirect pom t with
  | false =>
    rw [r.getD_upgrade_of_not_direct direct]
    exact ⟨fun h => absurd h (by rw [direct]; exact Bool.false_ne_true), fun _ => rfl⟩
  | true =>
    obtain ⟨c, version, hc, hversion, -⟩ := r.isDirect_eq_true.1 direct
    obtain ⟨child, hchild, -⟩ := Option.bind_eq_some_iff.1 ((Coordinates.ofTag?_eq_some.1 hc).2.2.trans hversion)
    obtain ⟨u, run, given⟩ := Tag.givenChild_withChildValue? hchild r.version s
    rw [r.getD_upgrade_of_direct direct run]
    exact ⟨fun _ => given, fun h => absurd direct (by rw [h]; exact Bool.false_ne_true)⟩

theorem Upgraded.name {r : DependencyVersion} {pom : Option Pom} {t u : Tag} (h : r.Upgraded pom t u) :
    u.name = t.name := by
  cases direct : r.isDirect pom t with
  | true => exact (h.given direct).name
  | false => rw [h.kept direct]

/-- What becomes of a property. -/
structure Assigned (properties : List String) (t u : Tag) : Prop where
  given : properties.contains t.name = true → u.value? = some (Text.trim r.version) ∧
    ∀ s, ((setValue u r.version).run s).1.getD u = u
  kept : properties.contains t.name = false → u = t

theorem value?_setValue (t : Tag) (value : String) (s : Supply) :
    (((setValue t value).run s).1.getD t).value? = some (Text.trim value) := by
  by_cases has : t.value? = some value
  · rw [run_setValue_of_eq has, Visit.getD_unchanged, Tag.trim_value? has, has]
  · rw [run_setValue_of_ne has, Visit.getD_changed, value?_withValue]

theorem keepsNames_edit (known : Known) : (r.edit known).KeepsNames := by
  intro ancestors t s
  rw [edit]
  split
  · exact (r.upgraded known.pom t s).name
  · split
    · exact (given_setValue t r.version s).name
    · rfl

theorem upgraded_of_revisesTo (h : t.RevisesTo (r.edit known) ancestors u)
    (place : ancestors ++ [t.name] ∈ dependencyPlaces) : r.Upgraded known.pom t u := by
  obtain ⟨s, rfl⟩ := h.outside fun more u => r.edit_inside (.inl place) more u
  rw [r.edit_of_dependency place]
  exact r.upgraded known.pom t s

theorem assigned_of_revisesTo (h : t.RevisesTo (r.edit known) ancestors u) (place : ancestors = propertiesPlace) :
    r.Assigned known.properties t u := by
  obtain ⟨s, rfl⟩ := h.outside fun more u => r.edit_inside (.inr place) more u
  rw [r.edit_of_property place]
  cases assigned : known.properties.contains t.name with
  | true =>
    rw [if_pos rfl]
    exact ⟨fun _ => ⟨value?_setValue t r.version s, (given_setValue t r.version s).again⟩,
      fun h => absurd assigned (by rw [h]; exact Bool.false_ne_true)⟩
  | false =>
    rw [if_neg Bool.false_ne_true]
    exact ⟨fun h => absurd h (by rw [assigned]; exact Bool.false_ne_true), fun _ => rfl⟩

end

end DependencyVersion

end Recipes

/-- The dependencies of a POM, and those it manages, wherever they are declared. -/
def Markup.Document.dependencies (d : Document) : List Tag :=
  d.root.reached ["dependencies", "dependency"] ++ d.root.reached ["dependencyManagement", "dependencies", "dependency"]

/-- The declarations of a property. -/
def Markup.Document.declarations (d : Document) (property : String) : List Tag :=
  d.root.reached ["properties", property]

namespace Recipes.DependencyVersion

open Markup

variable (r : DependencyVersion)

section

variable {r} {known : Known}

/-- The sections that a summary reads. -/
theorem forall₂_dependenciesIn (ancestors : List String) {before after : Option Tag}
    (sections : Option.Rel
      (fun a b => a.name = "dependencies" ∧ Tag.RevisesTo (r.edit known) ancestors a b) before after)
    (place : ancestors ++ ["dependencies"] ++ ["dependency"] ∈ dependencyPlaces)
    (idle : (r.edit known).IdleAt (ancestors ++ ["dependencies"])) :
    List.Forall₂ (r.Upgraded known.pom) (Tag.dependenciesIn before) (Tag.dependenciesIn after) := by
  cases sections with
  | none => exact .nil
  | some both =>
    obtain ⟨name, ab⟩ := both
    refine (ab.childrenNamed (r.keepsNames_edit known) (name ▸ idle) "dependency").imp fun t u htu => ?_
    refine r.upgraded_of_revisesTo htu.2 ?_
    rwa [htu.1, name]

variable {d e : Document} (project : d.root.name = "project")
  (revised : d.root.RevisesTo (r.edit known) [] e.root)

include project revised

theorem forall₂_reached {names : List String} (idle : ∀ k < names.length, "project" :: names.take k ∉ dependencyPlaces ∧
      ("project" :: names.take k).dropLast ≠ propertiesPlace) :
    List.Forall₂ (fun t u => t ∈ d.root.reached names ∧ t.RevisesTo (r.edit known) ("project" :: names).dropLast u)
      (d.root.reached names) (e.root.reached names) := by
  have below : List.Forall₂ (Tag.RevisesTo (r.edit known) (d.root.name :: names).dropLast) (d.root.reached names)
      (e.root.reached names) := by
    refine revised.reached (r.keepsNames_edit known) fun k hk => ?_
    rw [project]
    exact r.idleAt_edit (idle k hk).1 (idle k hk).2
  rw [project] at below
  exact (List.forall₂_and_left _ _).2 ⟨fun _ => id, below⟩

theorem forall₂_upgraded_reached {names : List String} (place : "project" :: names ∈ dependencyPlaces)
    (idle : ∀ k < names.length, "project" :: names.take k ∉ dependencyPlaces ∧
      ("project" :: names.take k).dropLast ≠ propertiesPlace) :
    List.Forall₂ (r.Upgraded known.pom) (d.root.reached names) (e.root.reached names) := by
  refine (forall₂_reached project revised idle).imp fun t u htu => ?_
  refine r.upgraded_of_revisesTo htu.2 ?_
  have path := Tag.names_of_mem_reached htu.1
  rw [project] at path
  rwa [path]

theorem forall₂_dependencies : List.Forall₂ (r.Upgraded known.pom) d.dependencies e.dependencies :=
  List.rel_append
    (forall₂_upgraded_reached project revised (by decide) (by decide))
    (forall₂_upgraded_reached project revised (by decide) (by decide))

theorem forall₂_declarations (property : String) :
    List.Forall₂ (fun t u => t.name = property ∧ r.Assigned known.properties t u) (d.declarations property)
      (e.declarations property) := by
  refine (forall₂_reached project revised ?_).imp fun t u htu => ⟨?_, r.assigned_of_revisesTo htu.2 rfl⟩
  · intro k hk
    match k, hk with
    | 0, _ => exact (by decide : ["project"] ∉ dependencyPlaces ∧ [] ≠ propertiesPlace)
    | 1, _ => exact (by decide : ["project", "properties"] ∉ dependencyPlaces ∧ ["project"] ≠ propertiesPlace)
  · have path := Tag.names_of_mem_reached htu.1
    rw [project] at path
    simpa using path

theorem child?_revised (name : String) :
    Option.Rel (fun a b => a.name = name ∧ a.RevisesTo (r.edit known) ["project"] b) (d.root.child? name)
      (e.root.child? name) := by
  have children := revised.child? (r.keepsNames_edit known) (by
    rw [project]
    exact r.idleAt_edit (by decide) (by decide)) name
  rwa [project] at children

theorem forall₂_listedDependencies :
    List.Forall₂ (r.Upgraded known.pom) d.listedDependencies e.listedDependencies := by
  refine List.rel_append ?_ ?_
  · exact forall₂_dependenciesIn ["project"] (child?_revised project revised "dependencies") (by decide)
      (r.idleAt_edit (by decide) (by decide))
  · refine forall₂_dependenciesIn ["project", "dependencyManagement"] ?_ (by decide)
      (r.idleAt_edit (by decide) (by decide))
    have managed := child?_revised project revised "dependencyManagement"
    generalize d.root.child? "dependencyManagement" = before at managed ⊢
    generalize e.root.child? "dependencyManagement" = after at managed ⊢
    cases managed with
    | none => exact .none
    | some both =>
      have inside := both.2.child? (r.keepsNames_edit known) (by
        rw [both.1]
        exact r.idleAt_edit (by decide) (by decide)) "dependencies"
      rwa [both.1] at inside

/-- The other children of the root element are left alone. -/
theorem child?_eq_of_other {name : String} (other : name ∉ ["properties", "dependencies", "dependencyManagement"]) :
    e.root.child? name = d.root.child? name := by
  have children := child?_revised project revised name
  generalize d.root.child? name = before at children ⊢
  generalize e.root.child? name = after at children ⊢
  cases children with
  | none => rfl
  | some both =>
    obtain ⟨hname, ab⟩ := both
    simp only [List.mem_cons, List.not_mem_nil, or_false, not_or] at other
    refine congrArg some (ab.eq_self ?_ fun more u => ?_)
    · rw [hname]
      exact r.idleAt_edit (by simp [dependencyPlaces]) (by simp [propertiesPlace])
    · rw [hname]
      exact r.edit_of_other (by simp [dependencyPlaces, other]) (by simp [propertiesPlace, other])

theorem propertiesIn_revised : Tag.propertiesIn (e.root.child? "properties") =
    (Tag.propertiesIn (d.root.child? "properties")).map (reassign known.properties (Text.trim r.version)) := by
  have children := child?_revised project revised "properties"
  generalize d.root.child? "properties" = before at children ⊢
  generalize e.root.child? "properties" = after at children ⊢
  cases children with
  | none => rfl
  | some both =>
    obtain ⟨hname, ab⟩ := both
    have inside := ab.children (by
      rw [hname]
      exact r.idleAt_edit (by decide) (by decide))
    rw [hname] at inside
    rw [Tag.propertiesIn, Tag.propertiesIn, List.map_map, eq_comm, ← List.forall₂_eq_eq_eq, List.forall₂_map_left_iff,
      List.forall₂_map_right_iff]
    refine inside.imp fun t u htu => ?_
    have assigned := r.assigned_of_revisesTo htu rfl
    rw [Function.comp_apply, reassign, htu.name (r.keepsNames_edit known)]
    cases contained : known.properties.contains t.name with
    | true => rw [(assigned.given contained).1, if_pos rfl, Option.getD_some]
    | false => rw [assigned.kept contained, if_neg Bool.false_ne_true]

/-- What references in the new document are resolved with is what it was, but for the properties. -/
theorem references_revised (pom : d.kind.isA .mavenPom = true) (same : e.kind = d.kind) :
    (Pom.ofDocument? e).map Pom.references =
      (Pom.ofDocument? d).map fun p => (p.given known.properties (Text.trim r.version)).references := by
  have project' : e.root.name = "project" := (revised.name (r.keepsNames_edit known)).trans project
  have value {name : String} (other : name ∉ ["properties", "dependencies", "dependencyManagement"]) :
      e.root.childValue? name = d.root.childValue? name := by
    rw [Tag.childValue?, Tag.childValue?, child?_eq_of_other project revised other]
  have own : Coordinates.ofTag? e.root = Coordinates.ofTag? d.root := by
    rw [Coordinates.ofTag?, Coordinates.ofTag?, value (by decide), value (by decide), value (by decide)]
  have given : (Pom.ofDocument? d).map (fun p => (p.given known.properties (Text.trim r.version)).references) =
      ((Pom.ofDocument? d).map Pom.references).map fun x =>
        (x.1, x.2.1, x.2.2.map (reassign known.properties (Text.trim r.version))) := by
    rw [Option.map_map]
    rfl
  rw [given, Pom.map_references_ofDocument? pom project, Pom.map_references_ofDocument? (same ▸ pom) project', own,
    child?_eq_of_other project revised (by decide), propertiesIn_revised project revised, Option.map_map]
  rfl

end

theorem listedDependencies_subset (d : Document) : d.listedDependencies ⊆ d.dependencies := by
  have inside {section? : Option Tag} {t : Tag} (ht : t ∈ Tag.dependenciesIn section?) :
      ∃ s, section? = some s ∧ t ∈ s.reached ["dependency"] := by
    cases section? with
    | none => cases ht
    | some s => exact ⟨s, rfl, List.mem_flatMap.2 ⟨t, ht, List.mem_cons_self⟩⟩
  intro t ht
  rw [Document.dependencies, List.mem_append]
  obtain ht | ht := List.mem_append.1 ht
  · obtain ⟨s, hs, ht⟩ := inside ht
    exact .inl (Tag.reached_child_subset hs _ ht)
  · obtain ⟨s, hs, ht⟩ := inside ht
    obtain ⟨m, hm, hs⟩ := Option.bind_eq_some_iff.1 hs
    exact .inr (Tag.reached_child_subset hm _ (Tag.reached_child_subset hs _ ht))

/-- The properties that a visit gives the version are those that selected dependencies of the summary refer to. -/
theorem mem_known {d : Document} {property : String} :
    property ∈ (r.known (Pom.ofDocument? d)).properties ↔ (Pom.ofDocument? d).isSome = true ∧
      ∃ t ∈ d.listedDependencies, ∃ c version, Coordinates.ofTag? t = some c ∧ c.version = some version ∧
        propertyReference? version = some property ∧ r.selects (Pom.ofDocument? d) c = true := by
  have refers (p : Pom) (dep : Dependency) : r.versionProperty? p dep = some property ↔ ∃ version,
      dep.coordinates.version = some version ∧ propertyReference? version = some property ∧
        r.selects (some p) dep.coordinates = true := by
    simp [versionProperty?, Option.bind_eq_some_iff, and_left_comm]
  cases summary : Pom.ofDocument? d with
  | none => simp [known]
  | some p =>
    have listed (t : Tag) (c : Coordinates) :
        Coordinates.ofTag? t = some c ↔ ∃ dep, Dependency.ofTag? t = some dep ∧ dep.coordinates = c := by
      rw [← Dependency.map_ofTag?, Option.map_eq_some_iff]
    simp only [known, Pom.dependencies_of_ofDocument? summary, List.mem_filterMap, refers, listed, Option.isSome_some,
      true_and]
    constructor
    · rintro ⟨dep, ⟨t, ht, hdep⟩, version, hversion, hproperty, hselects⟩
      exact ⟨t, ht, _, version, ⟨dep, hdep, rfl⟩, hversion, hproperty, hselects⟩
    · rintro ⟨t, ht, _, version, ⟨dep, hdep, rfl⟩, hversion, hproperty, hselects⟩
      exact ⟨dep, ⟨t, ht, hdep⟩, version, hversion, hproperty, hselects⟩

theorem selects_congr {p q : Option Pom} (h : p.map Pom.references = q.map Pom.references) (c : Coordinates) :
    r.selects p c = r.selects q c := by
  cases p with
  | none =>
    cases q with
    | none => rfl
    | some q => cases h
  | some p =>
    cases q with
    | none => cases h
    | some q =>
      have same : p.resolve = q.resolve := funext (Pom.resolve_congr (Option.some.inj h))
      rw [selects, selects]
      dsimp only
      rw [same]

theorem tag_visitor (place : Place) (t : Tag) (walk : StateT Known Visiting (Visit Tag)) :
    r.visitor.tag place t walk = (do
      let known ← get
      if place.ancestors ++ [t.name] ∈ dependencyPlaces then StateT.lift (Visiting.fresh (r.upgrade known.pom t))
      else if place.ancestors = propertiesPlace ∧ known.properties.contains t.name = true then
        StateT.lift (Visiting.fresh (setValue t r.version))
      else walk) := by
  simp only [← dependencyPath_selects, ← propertyPath_selects t.name, ← Bool.and_eq_true]
  rfl

theorem revises (known : Known) : Revises r.visitor known (fun _ a => a) (r.edit known) where
  idle := rfl
  attr _ _ := rfl
  outside _ := rfl
  tag place t naive := by
    rw [walked_of_idle] at naive
    rw [Tag.revise_eq, Visit.result, tag_visitor, map_bind]
    refine .get ?_
    have walked : ActsAs ((·.getD t) <$> Visit.changed <$> r.visitor.rebuildTag place t) known
        (t.reviseInside (r.edit known) place.ancestors) := by
      rw [Functor.map_map]
      exact (id_map (r.visitor.rebuildTag place t)).symm ▸ naive
    -- nothing inside a dependency or a property is edited, so there the hook alone counts
    by_cases dependency : place.ancestors ++ [t.name] ∈ dependencyPlaces
    · rw [if_pos dependency, Tag.reviseInside_of_idle (r.edit_inside (.inl dependency)), pure_bind,
        r.edit_of_dependency dependency]
      exact (ActsAs.fresh _).map _
    rw [if_neg dependency]
    by_cases property : place.ancestors = propertiesPlace
    · have inside : t.reviseInside (r.edit known) place.ancestors = pure t :=
        Tag.reviseInside_of_idle (r.edit_inside (.inr property))
      rw [inside] at walked
      rw [inside, pure_bind, r.edit_of_property property, if_congr (and_iff_right property) rfl rfl]
      split
      · exact (ActsAs.fresh _).map _
      · exact walked
    · rw [if_neg fun both => property both.1, bind_eq_self fun s => r.edit_of_other dependency property]
      exact walked

theorem run_pom {s : Session} (truthful : s.context.cache.Truthful) (d : Document) :
    ∃ s' : Session, (Visiting.pom d).run.run s = (.ok (Pom.ofDocument? d), s') ∧
      s'.context.cancelled = s.context.cancelled ∧ s'.context.cache.Truthful := by
  obtain ⟨summary, after⟩ := Pom.cached_of_truthful truthful d
  rw [← summary]
  exact ⟨{ s with context := { s.context with cache := (Pom.cached d s.context.cache).2 } }, rfl, rfl, after⟩

/-- What a visit comes to. -/
theorem run_visit {d : Document} (pom : d.kind.isA .mavenPom = true) {s : Session} (going : s.context.cancelled = false)
    (truthful : s.context.cache.Truthful) : ∃ root s',
      d.root.RevisesTo (r.edit (r.known (Pom.ofDocument? d))) [] root ∧
      ((SourceVisitor.ofMarkup r.visitor {}).visit (.markup d)).run.run s =
        (.ok (if { d with root } = d then .unchanged else .changed (.markup { d with root })), s') ∧
      s'.context.cancelled = false ∧ s'.context.cache.Truthful := by
  obtain ⟨s₁, summary, still, truthful₁⟩ := run_pom truthful d
  let known := r.known (Pom.ofDocument? d)
  let rebuilt := r.visitor.rebuildDocument (Visitor.placeOf d) d
  let root := ((d.root.revise (r.edit known) []).run s₁.supply).1
  let s₂ : Session := { s₁ with supply := ((d.revise (r.edit known)).run s₁.supply).2 }
  have walked : ((Visit.of d <$> (·.getD d) <$> Visit.changed <$> rebuilt).run known).run.run s₁ =
      (.ok (Visit.of d { d with root }, known), s₂) := by
    rw [show (·.getD d) <$> Visit.changed <$> rebuilt = rebuilt from (Functor.map_map _ _ _).trans (id_map _)]
    exact ((r.revises known).actsAs_rebuildDocument d).map (Visit.of d) s₁ (still.trans going)
  -- the summary is looked up first, and the walk begins in the session that this leaves
  have looked : ((StateT.lift (Visiting.pom d) : StateT Known Visiting _).run {}).run.run s =
      (.ok (Pom.ofDocument? d, {}), s₁) := run_bind_of_ok summary
  have visit : ((r.visitor.visit d).run {}).run.run s = (.ok (Visit.of d { d with root }, known), s₂) := by
    rw [Visitor.visit_eq r.visitor_isOblivious, Visit.result]
    change ((Visit.of d <$> (·.getD d) <$> (StateT.lift (Visiting.pom d) >>= fun summary =>
      set (r.known summary) >>= fun _ => Visit.changed <$> rebuilt)).run {}).run.run s = _
    rw [map_bind, map_bind, StateT.run_bind, run_bind_of_ok looked]
    exact walked
  refine ⟨root, s₂, ⟨s₁.supply, rfl⟩, (run_ofMarkup pom visit).trans ?_, still.trans going, truthful₁⟩
  rw [settle_markup_of (d := d) (e := { d with root }) rfl]

theorem getD_ite_markup (d e : Document) :
    (if e = d then Visit.unchanged else .changed (.markup e)).getD (Source.markup d) = .markup e := by
  split
  next same => rw [same]; rfl
  · rfl

variable {r}

/-- A dependency that the summary lists makes the visit set the property that it refers to. -/
theorem mem_known_of_lists {d : Document} {t : Tag} {c : Coordinates} {version property : String} (listed : d.Lists t)
    (hc : Coordinates.ofTag? t = some c) (hversion : c.version = some version)
    (hproperty : propertyReference? version = some property) (selected : r.selects (Pom.ofDocument? d) c = true) :
    property ∈ (r.known (Pom.ofDocument? d)).properties := by
  obtain ⟨p, summary, dep, hdep, same⟩ := listed
  rw [Pom.dependencies_of_ofDocument? summary] at hdep
  obtain ⟨t', ht', hdep⟩ := List.mem_filterMap.1 hdep
  refine r.mem_known.2 ⟨by rw [summary]; rfl, t', ht', c, version, ?_, hversion, hproperty, selected⟩
  rw [← hc, ← Dependency.map_ofTag?, ← Dependency.map_ofTag?, hdep, same]

/-- A selected dependency with a version has the new version then, or keeps its reference to a property that has, if
the summary lists it. -/
theorem selected_have_version (r : DependencyVersion) {d : Document} (pom : d.kind.isA .mavenPom = true)
    (project : d.root.name = "project") {s : Session} (going : s.context.cancelled = false)
    (truthful : s.context.cache.Truthful) :
    ∃ v x s' e, r.recipe.visitor = some v ∧ (v.visit (.markup d)).run.run s = (.ok x, s') ∧
      x.getD (.markup d) = .markup e ∧
      List.Forall₂ (fun t u => ∀ c version, Coordinates.ofTag? t = some c → c.version = some version →
          r.selects (Pom.ofDocument? d) c = true →
          (propertyReference? version = none → u.childValue? "version" = some (Text.trim r.version)) ∧
          ∀ property, propertyReference? version = some property →
            u = t ∧ (d.Lists t → ∀ w ∈ e.declarations property, w.value? = some (Text.trim r.version)))
        d.dependencies e.dependencies := by
  obtain ⟨root, s', revised, run, -, -⟩ := r.run_visit pom going truthful
  refine ⟨_, _, s', { d with root }, rfl, run, getD_ite_markup d _, ?_⟩
  refine (forall₂_dependencies (e := { d with root }) project revised).imp fun t u upgraded => ?_
  intro c version hc hversion selected
  constructor
  · intro literal
    exact (upgraded.given (r.isDirect_eq_true.2 ⟨c, version, hc, hversion, literal, selected⟩)).given
  · intro property hproperty
    constructor
    · refine upgraded.kept (Bool.eq_false_iff.2 fun direct => ?_)
      obtain ⟨c', version', hc', hversion', literal, -⟩ := r.isDirect_eq_true.1 direct
      rw [hc] at hc'
      cases hc'
      rw [hversion] at hversion'
      cases hversion'
      rw [hproperty] at literal
      cases literal
    · intro listed w hw
      have known := mem_known_of_lists listed hc hversion hproperty selected
      obtain ⟨t', -, name, assigned⟩ :=
        exists_of_mem_right (forall₂_declarations (e := { d with root }) project revised property) hw
      refine (assigned.given ?_).1
      rw [name]
      exact List.contains_iff_mem.2 known

def elementOf (name : String) (items : List Content) : Tag :=
  ⟨.none, "", [], name, [], some items, some ⟨.none, "", name, ""⟩, ""⟩

def textRun (text : String) : Content := .charData ⟨.none, "", false, text⟩

def dependencyOn (group version : String) : Tag :=
  elementOf "dependency" [.tag (elementOf "groupId" [textRun group]), .tag (elementOf "artifactId" [textRun "x"]),
    .tag (elementOf "version" [textRun version])]

def pomOf (artifact : List Content) (property : String) (dependencies : List Tag) : Document :=
  { (default : Document) with
    kind := .mavenPom
    root := elementOf "project" [.tag (elementOf "artifactId" artifact),
      .tag (elementOf "properties" [.tag (elementOf "p" [textRun property])]),
      .tag (elementOf "dependencies" (dependencies.map .tag))] }

def toVersion (version : String) : DependencyVersion := ⟨⟨[.char 'g']⟩, ⟨[.char 'x']⟩, version⟩

theorem selected_have_version_literalThenReference :
    let d := pomOf [textRun "a"] "1" [dependencyOn "g" "1", dependencyOn "g" "${p}"]
    d.kind.isA .mavenPom = true ∧ d.root.name = "project" ∧ Cache.Truthful {} ∧
      ∃ v x s' e, (toVersion " 2 ").recipe.visitor = some v ∧ (v.visit (.markup d)).run.run {} = (.ok x, s') ∧
        x.getD (.markup d) = .markup e ∧ e.dependencies.map (·.childValue? "version") = [some "2", some "${p}"] ∧
        ∀ w ∈ e.declarations "p", w.value? = some "2" := by
  intro d
  obtain ⟨v, x, s', e, hv, hrun, he, each⟩ :=
    selected_have_version (toVersion " 2 ") (d := d) rfl rfl (s := {}) rfl Cache.truthful_empty
  have dependencies : d.dependencies = [dependencyOn "g" "1", dependencyOn "g" "${p}"] := by decide +kernel
  rw [dependencies] at each
  refine ⟨rfl, rfl, Cache.truthful_empty, v, x, s', e, hv, hrun, he, ?_⟩
  generalize e.dependencies = after at each ⊢
  obtain _ | ⟨literal, _ | ⟨reference, _ | _⟩⟩ := each
  have first := (literal ⟨"g", "x", "1"⟩ "1" (by decide +kernel) rfl (by decide +kernel)).1 (by decide +kernel)
  obtain ⟨rfl, assigned⟩ := (reference ⟨"g", "x", "${p}"⟩ "${p}" (by decide +kernel) rfl (by decide +kernel)).2 "p"
    (by decide +kernel)
  have second : (dependencyOn "g" "${p}").childValue? "version" = some "${p}" := by decide +kernel
  have new : Text.trim (toVersion " 2 ").version = "2" := by decide +kernel
  have listed : d.Lists (dependencyOn "g" "${p}") := by decide +kernel
  rw [List.map_cons, List.map_cons, List.map_nil, first, second, new]
  exact ⟨rfl, fun w hw => new ▸ assigned listed w hw⟩

/-- With a comment in the name of the artifact there is no summary, and so nothing is known of the property that the
selected dependency refers to. -/
theorem reference_not_followed :
    let d := pomOf [textRun "a", .comment ⟨.none, "", " main "⟩] "1" [dependencyOn "g" "${p}"]
    ∃ c, Coordinates.ofTag? (dependencyOn "g" "${p}") = some c ∧ c.version = some "${p}" ∧
      d.dependencies = [dependencyOn "g" "${p}"] ∧ (toVersion "2").selects (Pom.ofDocument? d) c = true ∧
      propertyReference? "${p}" = some "p" ∧ (d.declarations "p").map (·.value?) = [some "1"] ∧
      (((SourceVisitor.ofMarkup (toVersion "2").visitor {}).visit (.markup d)).run.run {}).1 = .ok .unchanged := by
  refine ⟨⟨"g", "x", "${p}"⟩, ?_, rfl, ?_, ?_, ?_, ?_, ?_⟩
  all_goals decide +kernel

end Recipes.DependencyVersion
end Emend
