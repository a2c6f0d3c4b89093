import Emend.Proofs.Markup.MadeWalk
import Emend.Proofs.Recipes.Builtin

/-! # Recipes keep the rules of documents

What the visitors of the recipes put into a document is made, so nothing in the document that they leave breaks a rule.
-/

namespace Emend.Recipes

open Markup Markup.Visitor Std.Do

theorem made_setValue {t : Tag} (h : Made (.tag t)) (value : String) (ids : Supply) :
    Made (.tag (((setValue t value).run ids).1.getD t)) := by
  unfold setValue
  split
  · exact h
  · exact h.tagValue value ids

theorem AttributeValue.made_change (r : AttributeValue) (place : Place) {a : Attribute} (h : Made (.attr a)) :
    Made (.attr ((r.change place a).getD a)) := by
  unfold change
  split
  · exact h.value r.new
  · exact h

theorem TagSearch.made_mark (r : TagSearch) {t : Tag} (h : Made (.tag t)) (ids : Supply) :
    Made (.tag ((r.mark t).run ids).1) :=
  h.front t.leading (t.markers ++ [Marker.searchResult ⟨ids.next⟩ (some r.expression)])

theorem DependencyVersion.made_upgrade (r : DependencyVersion) (pom : Option Pom) {t : Tag} (h : Made (.tag t))
    (ids : Supply) : Made (.tag (((r.upgrade pom t).run ids).1.getD t)) := by
  unfold upgrade
  split
  · obtain ⟨found, ids', hr⟩ : ∃ found ids', (t.withChildValue? "version" r.version).run ids = (found, ids') :=
      ⟨_, _, rfl⟩
    rw [StateT.run_bind, hr]
    cases found with
    | none => exact h
    | some new =>
      change Made (.tag ((Visit.of t new).getD t))
      rw [Visit.getD_of_eq]
      exact h.childValue hr
  · exact h

theorem AttributeValue.visitor_keepsMade (r : AttributeValue) : r.visitor.KeepsMade ⌜True⌝ (Keeps.anyError Unit) :=
  { idle_keepsMade (.any _) with
    attr := fun place _ h => .pure (r.made_change place h) }

theorem ElementValue.visitor_keepsMade (r : ElementValue) : r.visitor.KeepsMade ⌜True⌝ (Keeps.anyError Unit) :=
  { idle_keepsMade (.any _) with
    tag := by
      intro place t walk ht h
      unfold visitor
      dsimp only
      split
      · exact h
      split
      · split
        · exact .fresh fun ids => made_setValue ht r.new ids
        · exact .pure ht
      · exact h }

theorem PropertyValue.visitor_keepsMade (r : PropertyValue) : r.visitor.KeepsMade ⌜True⌝ (Keeps.anyError Unit) :=
  { idle_keepsMade (.any _) with
    tag := by
      intro place t walk ht h
      unfold visitor
      dsimp only
      split
      · split
        · exact .fresh fun ids => made_setValue ht r.new ids
        · exact .pure ht
      · exact h }

theorem TagSearch.visitor_keepsMade (r : TagSearch) : r.visitor.KeepsMade ⌜True⌝ (Keeps.anyError Unit) :=
  { idle_keepsMade (.any _) with
    tag := by
      intro place t walk ht h
      apply h.bind
      intro visited hv
      split
      · exact (Keeps.fresh fun ids => r.made_mark hv ids).bind fun _ hm => .pure hm
      · exact .pure hv }

theorem DependencyVersion.visitor_keepsMade (r : DependencyVersion) :
    r.visitor.KeepsMade ⌜True⌝ (Keeps.anyError Known) :=
  { idle_keepsMade (.any _) with
    document := by
      intro place d walk hd h
      apply (Keeps.any _).bind
      intro pom _
      apply (Keeps.any _).bind
      intro _ _
      exact h
    tag := by
      intro place t walk ht h
      apply (Keeps.any _).bind
      intro known _
      split
      · exact .fresh fun ids => r.made_upgrade known.pom ht ids
      split
      · exact .fresh fun ids => made_setValue ht r.version ids
      · exact h }

section

variable {σ : Type} {v : Visitor (StateT σ Visiting)} {start : σ}

/-- A document changes into what its visitor came to. -/
theorem exists_of_ofMarkup_changed {d : Document} {e : Source} {s s' : Session}
    (h : ((SourceVisitor.ofMarkup v start).visit (.markup d)).run.run s = (.ok (.changed e), s')) :
    ∃ d' st, ((v.visit d).run start).run.run s = (.ok (.changed d', st), s') ∧ e = .markup d' := by
  unfold SourceVisitor.ofMarkup at h
  dsimp only at h
  split at h
  next =>
    obtain ⟨r, s₁, hr⟩ : ∃ r s₁, ((v.visit d).run start).run.run s = (r, s₁) := ⟨_, _, rfl⟩
    have settled := run_map_of_run (f := fun x => (x.map Source.markup).settle (.markup d))
      (run_map_of_run (f := Prod.fst) hr)
    obtain ⟨hx, rfl⟩ := Prod.mk.inj (settled.symm.trans h)
    obtain ⟨x, hx, changed⟩ := map_eq_ok.1 hx
    obtain ⟨⟨x, st⟩, rfl, rfl⟩ := map_eq_ok.1 hx
    cases x with
    | unchanged => cases Visit.eq_changed_of_settle changed
    | changed d' => exact ⟨d', st, hr, (Visit.changed.inj (Visit.eq_changed_of_settle changed)).symm⟩
  next => cases h

/-- What a made document is changed into is a made document. -/
def VisitsMade (v : SourceVisitor) : Prop :=
  ∀ d e s s', Made (.document d) → (v.visit (.markup d)).run.run s = (.ok (.changed e), s') →
    ∃ d', e = .markup d' ∧ Made (.document d')

theorem visitsMade_ofMarkup (hv : v.KeepsMade ⌜True⌝ (Keeps.anyError σ)) (start : σ) :
    VisitsMade (.ofMarkup v start) := by
  intro d e s s' h he
  obtain ⟨d', st, hr, rfl⟩ := exists_of_ofMarkup_changed he
  exact ⟨d', rfl, ((makes_visit hv h).of_run trivial hr).1⟩

end

theorem visitsMade_ofText (visit : PlainText → Visiting (Visit PlainText)) : VisitsMade (.ofText visit) := by
  intro d e s s' _ he
  cases he

/-- The recipes that are always there put nothing into a document that breaks a rule. -/
theorem builtin_visitsMade {name : String} {options : Json} {recipe : Recipe} {v : SourceVisitor}
    (h : builtin? name options = some (.ok recipe)) (hv : recipe.visitor = some v) : VisitsMade v := by
  cases isBuiltin_of_builtin? h with
  | elementValue r =>
    cases hv
    exact visitsMade_ofMarkup r.visitor_keepsMade ()
  | attributeValue r =>
    cases hv
    exact visitsMade_ofMarkup r.visitor_keepsMade ()
  | tagSearch r =>
    cases hv
    exact visitsMade_ofMarkup r.visitor_keepsMade ()
  | dependencyVersion r =>
    cases hv
    exact visitsMade_ofMarkup r.visitor_keepsMade {}
  | propertyValue r =>
    cases hv
    exact visitsMade_ofMarkup r.visitor_keepsMade ()
  | textReplacement r =>
    cases hv
    exact visitsMade_ofText _

end Emend.Recipes
