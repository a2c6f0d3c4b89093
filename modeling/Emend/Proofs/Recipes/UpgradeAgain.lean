import Emend.Proofs.Recipes.Upgrade

/-! # Upgrading dependencies again

The next visit finds dependencies that have the version, and properties that have it. It changes something only if
the visit before made a reference or resolved one otherwise.
-/

namespace Emend.Recipes.DependencyVersion

open Markup

variable {r : DependencyVersion}

/-- The summary of the document after a visit, as far as references are resolved with it. -/
def given (r : DependencyVersion) (pom : Option Pom) : Option Pom :=
  pom.map (·.given (r.known pom).properties (Text.trim r.version))

section

variable {d e : Document} (pom : d.kind.isA .mavenPom = true) (project : d.root.name = "project")
  (revised : d.root.RevisesTo (r.edit (r.known (Pom.ofDocument? d))) [] e.root) (kind : e.kind = d.kind)

include pom project revised kind

theorem selects_revised (c : Coordinates) :
    r.selects (Pom.ofDocument? e) c = r.selects (r.given (Pom.ofDocument? d)) c := by
  refine r.selects_congr ?_ c
  rw [references_revised project revised pom kind, given, Option.map_map]
  rfl

variable (stable : ∀ t ∈ d.dependencies, ∀ c, Coordinates.ofTag? t = some c →
    r.selects (r.given (Pom.ofDocument? d)) c = r.selects (Pom.ofDocument? d) c)

include stable

theorem getD_upgrade_again {u : Tag} (hu : u ∈ e.dependencies) (s : Supply) :
    ((r.upgrade (Pom.ofDocument? e) u).run s).1.getD u = u := by
  obtain ⟨t, ht, upgraded⟩ := exists_of_mem_right (forall₂_dependencies project revised) hu
  cases again : r.isDirect (Pom.ofDocument? e) u with
  | false => exact r.getD_upgrade_of_not_direct again s
  | true =>
    cases direct : r.isDirect (Pom.ofDocument? d) t with
    | true => exact r.getD_upgrade_of_direct again ((upgraded.given direct).again s)
    | false =>
      -- it was not upgraded before, so it was not selected
      obtain rfl := upgraded.kept direct
      obtain ⟨c, version, hc, hversion, literal, selected⟩ := r.isDirect_eq_true.1 again
      rw [selects_revised pom project revised kind, stable u ht c hc] at selected
      have before := r.isDirect_eq_true.2 ⟨c, version, hc, hversion, literal, selected⟩
      exact absurd before (by rw [direct]; exact Bool.false_ne_true)

variable (resolved : ∀ t ∈ d.listedDependencies, r.isDirect (Pom.ofDocument? d) t = true →
    ∀ property, propertyReference? r.version = some property → ∀ w ∈ d.declarations property, w.value? = some r.version)

include resolved

theorem getD_setValue_again {property : String} (known : property ∈ (r.known (Pom.ofDocument? e)).properties) {w : Tag}
    (hw : w ∈ e.declarations property) (s : Supply) : ((setValue w r.version).run s).1.getD w = w := by
  obtain ⟨w', hw', name, assigned⟩ := exists_of_mem_right (forall₂_declarations project revised property) hw
  cases before : (r.known (Pom.ofDocument? d)).properties.contains w'.name with
  | true => exact (assigned.given before).2 s
  | false =>
    obtain rfl := assigned.kept before
    obtain ⟨summary, u, hu, c, version, hc, hversion, hproperty, selected⟩ := r.mem_known.1 known
    obtain ⟨t, ht, upgraded⟩ := exists_of_mem_right (forall₂_listedDependencies project revised) hu
    cases direct : r.isDirect (Pom.ofDocument? d) t with
    | true =>
      -- the reference is the new version
      have new := Coordinates.ofTag?_givenVersion (upgraded.given direct)
      rw [hc] at new
      obtain ⟨c', -, rfl⟩ := Option.map_eq_some_iff.1 new.symm
      obtain rfl := Option.some.inj hversion
      rw [propertyReference?_trim] at hproperty
      rw [run_setValue_of_eq (resolved t ht direct property hproperty w hw')]
      rfl
    | false =>
      -- the reference was there before, and so the property was set
      obtain rfl := upgraded.kept direct
      rw [selects_revised pom project revised kind, stable u (listedDependencies_subset d ht) c hc] at selected
      have summary' : (Pom.ofDocument? d).isSome = true := by
        have same := congrArg Option.isSome (references_revised project revised pom kind)
        rwa [Option.isSome_map, Option.isSome_map, summary, eq_comm] at same
      have known' := r.mem_known.2 ⟨summary', u, ht, c, version, hc, hversion, hproperty, selected⟩
      rw [← name, ← List.contains_iff_mem, before] at known'
      cases known'

theorem revise_again (s : Supply) :
    ((e.root.revise (r.edit (r.known (Pom.ofDocument? e))) []).run s).1 = e.root := by
  have project' : e.root.name = "project" := (revised.name (r.keepsNames_edit _)).trans project
  refine e.root.revise_of_fixed (fun names u hu s => ?_) s
  -- the names on the way to an element say which of the two sections it belongs to, if to any
  have path := Tag.names_of_mem_reached hu
  rw [project'] at path
  rw [project', List.nil_append]
  by_cases dependency : ("project" :: names).dropLast ++ [u.name] ∈ dependencyPlaces
  · rw [r.edit_of_dependency dependency]
    refine getD_upgrade_again pom project revised kind stable ?_ s
    rw [path, dependencyPlaces, List.mem_cons, List.mem_singleton, List.cons.injEq, List.cons.injEq] at dependency
    obtain ⟨-, rfl⟩ | ⟨-, rfl⟩ := dependency
    · exact List.mem_append_left _ hu
    · exact List.mem_append_right _ hu
  by_cases property : ("project" :: names).dropLast = propertiesPlace
  · rw [r.edit_of_property property]
    split
    next known =>
      refine getD_setValue_again pom project revised kind stable resolved (List.contains_iff_mem.1 known) ?_ s
      rw [property] at path
      obtain rfl : names = ["properties", u.name] := (List.cons.inj path).2.symm
      exact hu
    · rfl
  · rw [r.edit_of_other dependency property]
    rfl

end

/-- Where the new version is no reference to a property, unless to one that has it already, and the properties that a
visit sets decide on no dependency, a visit of what the visit came to changes nothing. -/
theorem upgrade_settles (r : DependencyVersion) {d : Document} (pom : d.kind.isA .mavenPom = true)
    (project : d.root.name = "project")
    (resolved : ∀ t ∈ d.listedDependencies, r.isDirect (Pom.ofDocument? d) t = true →
      ∀ property, propertyReference? r.version = some property →
        ∀ w ∈ d.declarations property, w.value? = some r.version)
    (stable : ∀ t ∈ d.dependencies, ∀ c, Coordinates.ofTag? t = some c →
      r.selects (r.given (Pom.ofDocument? d)) c = r.selects (Pom.ofDocument? d) c)
    {s : Session} (going : s.context.cancelled = false) (truthful : s.context.cache.Truthful) :
    ∃ v x s', r.recipe.visitor = some v ∧ (v.visit (.markup d)).run.run s = (.ok x, s') ∧
      s'.context.cancelled = false ∧ s'.context.cache.Truthful ∧
      ∀ s'' : Session, s''.context.cancelled = false → s''.context.cache.Truthful →
        ((v.visit (x.getD (.markup d))).run.run s'').1 = .ok .unchanged := by
  obtain ⟨root, s', revised, run, going', truthful'⟩ := r.run_visit pom going truthful
  refine ⟨_, _, s', rfl, run, going', truthful', fun s'' going'' truthful'' => ?_⟩
  obtain ⟨root', _, ⟨ids, same⟩, again, -⟩ := r.run_visit (d := { d with root }) pom going'' truthful''
  rw [revise_again (e := { d with root }) pom project revised rfl stable resolved] at same
  rw [getD_ite_markup, again, ← same, if_pos rfl]

theorem upgrade_settles_literalThenReference :
    let d := pomOf [textRun "a"] "1" [dependencyOn "g" "1", dependencyOn "g" "${p}"]
    let after := pomOf [textRun "a"] "2" [dependencyOn "g" "2", dependencyOn "g" "${p}"]
    d.kind.isA .mavenPom = true ∧ d.root.name = "project" ∧
      (∀ t ∈ d.listedDependencies, (toVersion "2").isDirect (Pom.ofDocument? d) t = true →
        ∀ property, propertyReference? (toVersion "2").version = some property →
          ∀ w ∈ d.declarations property, w.value? = some "2") ∧
      (∀ t ∈ d.dependencies, ∀ c, Coordinates.ofTag? t = some c →
        (toVersion "2").selects ((toVersion "2").given (Pom.ofDocument? d)) c =
          (toVersion "2").selects (Pom.ofDocument? d) c) ∧
      Cache.Truthful {} ∧ ∃ v s', (toVersion "2").recipe.visitor = some v ∧
        (v.visit (.markup d)).run.run {} = (.ok (.changed (.markup after)), s') ∧
        ((v.visit (.markup after)).run.run s').1 = .ok .unchanged := by
  intro d after
  have resolved : ∀ t ∈ d.listedDependencies, (toVersion "2").isDirect (Pom.ofDocument? d) t = true →
      ∀ property, propertyReference? (toVersion "2").version = some property →
        ∀ w ∈ d.declarations property, w.value? = some "2" := by
    intro t _ _ property reference
    have literal : propertyReference? (toVersion "2").version = none := by decide +kernel
    rw [literal] at reference
    cases reference
  have stable : ∀ t ∈ d.dependencies, ∀ c, Coordinates.ofTag? t = some c →
      (toVersion "2").selects ((toVersion "2").given (Pom.ofDocument? d)) c =
        (toVersion "2").selects (Pom.ofDocument? d) c := by
    have each : ∀ t ∈ d.dependencies, ∀ c ∈ Coordinates.ofTag? t,
        (toVersion "2").selects ((toVersion "2").given (Pom.ofDocument? d)) c =
          (toVersion "2").selects (Pom.ofDocument? d) c := by decide +kernel
    exact each
  obtain ⟨v, x, s', hv, hrun, going, truthful, again⟩ :=
    upgrade_settles (toVersion "2") (d := d) rfl rfl resolved stable (s := {}) rfl Cache.truthful_empty
  obtain rfl := Option.some.inj hv
  have changed : (((SourceVisitor.ofMarkup (toVersion "2").visitor {}).visit (.markup d)).run.run {}).1 =
      .ok (.changed (.markup after)) := by decide +kernel
  rw [hrun] at changed
  obtain rfl := Except.ok.inj changed
  exact ⟨rfl, rfl, resolved, stable, Cache.truthful_empty, _, s', hv, hrun, again s' going truthful⟩

/-- A version that is a reference is followed by the next visit, and a property that is the group of another dependency
makes the next visit select it. -/
theorem upgrade_goes_on :
    let visit (version : String) (d : Document) :=
      (((SourceVisitor.ofMarkup (toVersion version).visitor {}).visit (.markup d)).run.run {}).1
    let referring (property : String) := pomOf [textRun "a"] property [dependencyOn "g" "${p}"]
    let grouped (property version : String) :=
      pomOf [textRun "a"] property [dependencyOn "g" "${p}", dependencyOn "${p}" version]
    visit "${p}" (pomOf [textRun "a"] "1" [dependencyOn "g" "1"]) = .ok (.changed (.markup (referring "1"))) ∧
      visit "${p}" (referring "1") = .ok (.changed (.markup (referring "${p}"))) ∧
      visit "g" (grouped "1" "1") = .ok (.changed (.markup (grouped "g" "1"))) ∧
      visit "g" (grouped "g" "1") = .ok (.changed (.markup (grouped "g" "g"))) := by
  decide +kernel

end Emend.Recipes.DependencyVersion
