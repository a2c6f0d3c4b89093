import Emend.Proofs.Markup.Values
import Emend.Proofs.Pipeline.Encounter
import Emend.Proofs.Recipes.Builtin
import Emend.Proofs.Recipes.Finishing
import Emend.Proofs.Recipes.Rewriting
import Emend.Proofs.Recipes.Visitors

/-! # Visits that settle

Where each hook leaves what it made itself alone, a second visit leaves what the first one made. So it is with the
recipes that set values and with the search for elements, whatever the document looks like
(`second_visit_settles`).
-/

namespace Emend.Recipes

open Markup

/-- What it comes to, it comes to again. -/
def Settles {α : Type} (f : α → StateT Unit Visiting α) : Prop := ∀ a, Finishes (f a) fun b => Finishes (f b) (· = b)

namespace Settles

variable {α : Type}

theorem of_eq_pure {f : α → StateT Unit Visiting α} {g : α → α} (h : ∀ a, f a = pure (g a))
    (idempotent : ∀ a, g (g a) = g a) : Settles f := by
  intro a
  rw [h]
  refine .pure ?_
  rw [h]
  exact .pure (idempotent a)

theorem mapM {f : α → StateT Unit Visiting α} (h : Settles f) : Settles (List.mapM f) := by
  intro as
  induction as with
  | nil => exact .pure (.pure rfl)
  | cons a as ih =>
    rw [List.mapM_cons]
    refine (h a).bind fun b hb => ih.bind fun bs hbs => .pure ?_
    rw [List.mapM_cons]
    refine hb.bind_eq ?_
    exact hbs.bind_eq (.pure rfl)

theorem optional {f : α → StateT Unit Visiting α} (h : Settles f) : Settles (Option.mapM f) := by
  intro a?
  cases a? with
  | none => exact .pure (.pure rfl)
  | some a => exact (h a).map fun b hb => hb.map fun _ e => congrArg some e

end Settles

/-- Elements that hooks treat alike. -/
structure Alike (t u : Tag) : Prop where
  name : u.name = t.name
  markers : u.markers = t.markers
  value : u.value? = t.value?

section

variable (v : Markup.Visitor (StateT Unit Visiting))

def onElement (place : Place) (t : Tag) : StateT Unit Visiting Tag :=
  Visit.result (fun t => v.tag place t (.changed <$> v.rebuildTag place t)) t

/-- Its hooks for elements and attributes settle, and it has no others. -/
structure Settling : Prop where
  idle : v = { target := v.target, tag := v.tag, attr := v.attr }
  oblivious : v.IsOblivious
  attr : ∀ place, Settles (Visit.result (v.attr place))
  tag : ∀ place t, Finishes (v.rebuildTag place t) (fun u => Alike t u ∧ Finishes (v.rebuildTag place u) (· = u)) →
    Finishes (onElement v place t) fun u => Finishes (onElement v place u) (· = u)

end

theorem eq_of_same_markup {d e : Document} (path : e.path = d.path)
    (same : SameAs.same (Source.markup e) (.markup d) = true) : e = d := by
  have equal : ({ e with path := d.path } : Document) = d := of_decide_eq_true (Bool.and_eq_true_iff.1 same).2
  rwa [← path] at equal

namespace Settling

variable {v : Markup.Visitor (StateT Unit Visiting)}

theorem hooksElements (h : Settling v) : v.HooksElements := by
  rw [Visitor.HooksElements, h.idle]

theorem rebuildContent_tag (place : Place) (t : Tag) :
    v.rebuildContent place (.tag t) = .tag <$> onElement v place t := by
  rw [Visitor.rebuildContent, onElement, Visit.result, bind_pure_comp, Functor.map_map]

theorem textOf_cons_congr (c : Content) {cs ds : List Content} (e : Tag.textOf ds = Tag.textOf cs) :
    Tag.textOf (c :: ds) = Tag.textOf (c :: cs) := by
  cases c with
  | charData d => rw [Tag.textOf, Tag.textOf, e]
  | _ => rfl

theorem finishes_leaf (h : Settling v) (place : Place) {c : Content} (leaf : c.tag? = none) :
    Finishes (v.rebuildContent place c) fun d =>
      (∀ {cs ds}, Tag.textOf ds = Tag.textOf cs → Tag.textOf (d :: ds) = Tag.textOf (c :: cs)) ∧
        Finishes (v.rebuildContent place d) (· = d) := by
  have kept := h.hooksElements.rebuildContent_of_leaf place leaf
  rw [kept]
  refine .pure ⟨textOf_cons_congr c, ?_⟩
  rw [kept]
  exact .pure rfl

mutual

theorem finishes_rebuildTag (h : Settling v) (place : Place) (t : Tag) :
    Finishes (v.rebuildTag place t) fun u => Alike t u ∧ Finishes (v.rebuildTag place u) (· = u) := by
  obtain ⟨id, leading, markers, name, attributes, content, closing, beforeClose⟩ := t
  rw [Visitor.rebuildTag]
  refine Finishes.checkpoint.bind fun _ _ => ((h.attr (place.enter name)).mapM attributes).bind fun as has => ?_
  cases content with
  | none =>
    dsimp only
    rw [pure_bind]
    refine .pure ⟨⟨rfl, rfl, rfl⟩, ?_⟩
    rw [Visitor.rebuildTag]
    exact Finishes.checkpoint.bind fun _ _ => has.bind_eq (.pure rfl)
  | some items =>
    dsimp only
    rw [bind_map_left]
    refine (h.finishes_rebuildItems (place.enter name) items).bind fun ds hds => .pure ⟨⟨rfl, rfl, ?_⟩, ?_⟩
    · rw [Tag.value?_of_content rfl, Tag.value?_of_content rfl, hds.1]
    · rw [Visitor.rebuildTag]
      refine Finishes.checkpoint.bind fun _ _ => has.bind_eq ?_
      dsimp only
      rw [bind_map_left]
      exact hds.2.bind_eq (.pure rfl)

theorem finishes_rebuildItems (h : Settling v) (place : Place) (cs : List Content) :
    Finishes (v.rebuildItems place cs) fun ds =>
      Tag.textOf ds = Tag.textOf cs ∧ Finishes (v.rebuildItems place ds) (· = ds) := by
  cases cs with
  | nil => exact .pure ⟨rfl, .pure rfl⟩
  | cons c cs =>
    rw [Visitor.rebuildItems]
    refine (h.finishes_rebuildContent place c).bind fun d hd => ?_
    refine (h.finishes_rebuildItems place cs).bind fun ds hds => .pure ⟨hd.1 hds.1, ?_⟩
    rw [Visitor.rebuildItems]
    refine hd.2.bind_eq ?_
    exact hds.2.bind_eq (.pure rfl)

theorem finishes_rebuildContent (h : Settling v) (place : Place) (c : Content) :
    Finishes (v.rebuildContent place c) fun d =>
      (∀ {cs ds}, Tag.textOf ds = Tag.textOf cs → Tag.textOf (d :: ds) = Tag.textOf (c :: cs)) ∧
        Finishes (v.rebuildContent place d) (· = d) := by
  cases c with
  | tag t =>
    rw [rebuildContent_tag]
    refine (h.tag place t (h.finishes_rebuildTag place t)).map fun u hu => ⟨fun _ => rfl, ?_⟩
    rw [rebuildContent_tag]
    exact hu.map fun _ hu => congrArg Content.tag hu
  | charData _ => exact h.finishes_leaf place rfl
  | comment _ => exact h.finishes_leaf place rfl
  | instruction _ => exact h.finishes_leaf place rfl

end

theorem settles_rebuildDeclaration (h : Settling v) (place : Place) : Settles (v.rebuildDeclaration place) := by
  intro d
  refine ((h.attr place).mapM d.attributes).bind fun as has => .pure ?_
  exact has.bind_eq (.pure rfl)

theorem settles_rebuildProlog (h : Settling v) (place : Place) : Settles (v.rebuildProlog place) := by
  intro p
  rw [h.hooksElements.rebuildProlog_eq]
  refine ((h.settles_rebuildDeclaration place).optional p.declaration).bind fun d hd => .pure ?_
  rw [h.hooksElements.rebuildProlog_eq]
  exact hd.bind_eq (.pure rfl)

theorem settles_onElement (h : Settling v) (place : Place) : Settles (onElement v place) := fun t =>
  h.tag place t (h.finishes_rebuildTag place t)

theorem finishes_rebuildDocument (h : Settling v) (place : Place) (d : Document) :
    Finishes (v.rebuildDocument place d) fun e =>
      (e.path = d.path ∧ e.kind = d.kind) ∧ Finishes (v.rebuildDocument place e) (· = e) := by
  rw [h.hooksElements.rebuildDocument_eq]
  refine Finishes.checkpoint.bind fun _ _ => (h.settles_rebuildProlog place d.prolog).bind fun p hp => ?_
  refine (h.settles_onElement place d.root).bind fun t ht => .pure ⟨⟨rfl, rfl⟩, ?_⟩
  rw [h.hooksElements.rebuildDocument_eq]
  refine Finishes.checkpoint.bind fun _ _ => hp.bind_eq ?_
  exact ht.bind_eq (.pure rfl)

theorem visit_eq (h : Settling v) (d : Document) :
    v.visit d = Visit.of d <$> v.rebuildDocument (Visitor.placeOf d) d := by
  refine Visitor.visit_eq_of_walking h.oblivious fun walk => ?_
  rw [h.idle]

/-- A second visit of a document finds nothing to do. -/
theorem finishes_visit (h : Settling v) (d : Document) :
    Finishes (v.visit d) fun x => ((x.getD d).path = d.path ∧ (x.getD d).kind = d.kind) ∧
      Finishes (v.visit (x.getD d)) (· = .unchanged) := by
  rw [h.visit_eq]
  refine (h.finishes_rebuildDocument (Visitor.placeOf d) d).map ?_
  rintro e ⟨⟨path, kind⟩, again⟩
  rw [Visit.getD_of_eq]
  refine ⟨⟨path, kind⟩, ?_⟩
  rw [h.visit_eq, show Visitor.placeOf e = Visitor.placeOf d by rw [Visitor.placeOf, Visitor.placeOf, path, kind]]
  exact again.map fun _ same => Visit.of_eq_unchanged.2 same

theorem getD_settle_markup {d : Document} {x : Visit Document} (path : (x.getD d).path = d.path) :
    ((x.map Source.markup).settle (.markup d)).getD (.markup d) = .markup (x.getD d) := by
  cases x with
  | unchanged => rfl
  | changed e =>
    change (Visit.of (Source.markup d) (.markup e)).getD (.markup d) = .markup e
    rw [Visit.getD_of, Visit.keep]
    split
    next same =>
      have equal : e = d := eq_of_same_markup path same
      rw [equal]
    next => rfl

theorem finishes_ofMarkup (h : Settling v) (d : Document) {s : Session} (hs : s.context.cancelled = false) :
    ∃ x s', ((SourceVisitor.ofMarkup v ()).visit (.markup d)).run.run s = (.ok x, s') ∧
      s'.context.cancelled = false ∧ ∀ t : Session, t.context.cancelled = false → ∃ t',
        ((SourceVisitor.ofMarkup v ()).visit (x.getD (.markup d))).run.run t = (.ok .unchanged, t') := by
  by_cases hk : d.kind.isA v.target = true
  · obtain ⟨x, s', hrun, hs', ⟨path, kind⟩, again⟩ := h.finishes_visit d s hs
    refine ⟨_, s', run_ofMarkup hk hrun, hs', fun t ht => ?_⟩
    rw [getD_settle_markup path]
    obtain ⟨y, t', hrun', -, rfl⟩ := again t ht
    exact ⟨t', run_ofMarkup (by rwa [kind]) hrun'⟩
  · exact ⟨.unchanged, s, run_ofMarkup_of_other hk s, hs, fun t _ => ⟨t, run_ofMarkup_of_other hk t⟩⟩

end Settling

section

variable {v : Markup.Visitor (StateT Unit Visiting)} {place : Place} {t : Tag}

theorem onElement_of_walks (h : ∀ walk, v.tag place t walk = walk) : onElement v place t = v.rebuildTag place t := by
  rw [onElement, Visit.result, h]
  exact (Functor.map_map _ _ _).trans (id_map _)

theorem onElement_of_leaves (h : ∀ walk, v.tag place t walk = pure .unchanged) : onElement v place t = pure t := by
  rw [onElement, Visit.result, h]
  rfl

/-- A hook that walks on settles where the walk does. -/
theorem finishes_of_walks (h : ∀ u, Alike t u → ∀ walk, v.tag place u walk = walk)
    (walked : Finishes (v.rebuildTag place t) fun u => Alike t u ∧ Finishes (v.rebuildTag place u) (· = u)) :
    Finishes (onElement v place t) fun u => Finishes (onElement v place u) (· = u) := by
  rw [onElement_of_walks (h t ⟨rfl, rfl, rfl⟩)]
  refine walked.mono fun u hu => ?_
  rw [onElement_of_walks (h u hu.1)]
  exact hu.2

end

theorem run_setValue_of_eq {t : Tag} {value : String} (h : t.value? = some value) (s : Supply) :
    ((setValue t value).run s).1 = .unchanged := by
  rw [setValue, if_pos h]
  rfl

theorem run_setValue_of_ne {t : Tag} {value : String} (h : t.value? ≠ some value) (s : Supply) :
    ((setValue t value).run s).1 = .changed ((t.withValue value).run s).1 := by
  rw [setValue, if_neg h]
  rfl

/-- An element that is given a value keeps its name, has a value then, and is given it again in vain. -/
structure Given (t : Tag) (value : String) (x : Visit Tag) : Prop where
  name : (x.getD t).name = t.name
  hasValue : ∃ current, (x.getD t).value? = some current
  again : ∀ s, ((setValue (x.getD t) value).run s).1.getD (x.getD t) = x.getD t

theorem given_setValue (t : Tag) (value : String) (s : Supply) : Given t value ((setValue t value).run s).1 := by
  by_cases has : t.value? = some value
  · rw [run_setValue_of_eq has]
    refine ⟨rfl, ⟨value, has⟩, fun s' => ?_⟩
    rw [Visit.getD_unchanged, run_setValue_of_eq has]
    rfl
  · rw [run_setValue_of_ne has]
    obtain ⟨i, j, filled⟩ := run_withValue t value s
    refine ⟨?_, ?_, fun s' => ?_⟩
    · rw [Visit.getD_changed, filled]
      rfl
    · rw [Visit.getD_changed, filled]
      exact ⟨_, rfl⟩
    · rw [Visit.getD_changed]
      by_cases has' : ((t.withValue value).run s).1.value? = some value
      · rw [run_setValue_of_eq has']
        rfl
      · rw [run_setValue_of_ne has', run_withValue_again]
        rfl

/-- A hook that walks on, leaves the element or gives it a value, as long as it does not walk into what it gave a
value. -/
theorem finishes_of_choice {v : Markup.Visitor (StateT Unit Visiting)} {value : String}
    {choose : Place → String → Option String → Choice}
    (hook : ∀ place t walk, v.tag place t walk = match choose place t.name t.value? with
      | .walk => walk
      | .leave => pure .unchanged
      | .set => StateT.lift (Visiting.fresh (setValue t value)))
    (stays : ∀ place name current again, choose place name current = .set → choose place name (some again) ≠ .walk)
    (place : Place) (t : Tag)
    (walked : Finishes (v.rebuildTag place t) fun u => Alike t u ∧ Finishes (v.rebuildTag place u) (· = u)) :
    Finishes (onElement v place t) fun u => Finishes (onElement v place u) (· = u) := by
  cases chosen : choose place t.name t.value? with
  | walk =>
    refine finishes_of_walks (fun u alike walk => ?_) walked
    rw [hook, alike.name, alike.value, chosen]
  | leave =>
    have leaves : onElement v place t = pure t := onElement_of_leaves fun walk => by rw [hook, chosen]
    rw [leaves]
    refine .pure ?_
    rw [leaves]
    exact .pure rfl
  | set =>
    have sets {t : Tag} (chosen : choose place t.name t.value? = .set) :
        onElement v place t = (·.getD t) <$> StateT.lift (Visiting.fresh (setValue t value)) := by
      rw [onElement, Visit.result, hook, chosen]
    rw [sets chosen]
    refine (Finishes.fresh (given_setValue t value)).map ?_
    rintro x ⟨name, ⟨current, hcurrent⟩, again⟩
    -- the second visit chooses by the value that the first one gave, and must not walk on there
    have walks_not := stays place t.name t.value? current chosen
    rw [← name, ← hcurrent] at walks_not
    cases chosen' : choose place (x.getD t).name (x.getD t).value? with
    | walk => exact absurd chosen' walks_not
    | leave =>
      rw [onElement_of_leaves fun walk => by rw [hook, chosen']]
      exact .pure rfl
    | set =>
      rw [sets chosen']
      exact (Finishes.fresh again).map fun _ e => e

def ElementValue.choose (r : ElementValue) (place : Place) (name : String) (current : Option String) : Choice :=
  match current with
  | none => .walk
  | some current =>
    if r.path.selects place.ancestors name then if r.old.all (· == current) then .set else .leave else .walk

theorem ElementValue.tag_visitor (r : ElementValue) (place : Place) (t : Tag)
    (walk : StateT Unit Visiting (Visit Tag)) :
    r.visitor.tag place t walk = match r.choose place t.name t.value? with
      | .walk => walk
      | .leave => pure .unchanged
      | .set => StateT.lift (Visiting.fresh (setValue t r.new)) := by
  unfold visitor choose
  dsimp only
  cases t.value? with
  | none => rfl
  | some current =>
    dsimp only
    by_cases selected : place.selectedBy r.path t = true
    · rw [if_pos selected, if_pos (show r.path.selects place.ancestors t.name = true from selected)]
      by_cases old : r.old.all (· == current) = true
      · rw [if_pos old, if_pos old]
      · rw [if_neg old, if_neg old]
    · rw [if_neg selected, if_neg (show ¬r.path.selects place.ancestors t.name = true from selected)]

theorem ElementValue.settling (r : ElementValue) : Settling r.visitor where
  idle := rfl
  oblivious := r.visitor_isOblivious
  attr _ := .of_eq_pure (g := id) (fun _ => rfl) fun _ => rfl
  tag := by
    refine finishes_of_choice r.tag_visitor fun place name current again chosen => ?_
    unfold choose at chosen ⊢
    cases current with
    | none => cases chosen
    | some current =>
      dsimp only at chosen ⊢
      by_cases selected : r.path.selects place.ancestors name = true
      · rw [if_pos selected]
        split <;> decide
      · rw [if_neg selected] at chosen
        cases chosen

def PropertyValue.choose (r : PropertyValue) (place : Place) (name : String) (_ : Option String) : Choice :=
  if propertyPath.selects place.ancestors name then if name = r.key then .set else .leave else .walk

theorem PropertyValue.tag_visitor (r : PropertyValue) (place : Place) (t : Tag)
    (walk : StateT Unit Visiting (Visit Tag)) :
    r.visitor.tag place t walk = match r.choose place t.name t.value? with
      | .walk => walk
      | .leave => pure .unchanged
      | .set => StateT.lift (Visiting.fresh (setValue t r.new)) := by
  unfold visitor choose
  dsimp only
  by_cases selected : place.selectedBy propertyPath t = true
  · rw [if_pos selected, if_pos (show propertyPath.selects place.ancestors t.name = true from selected)]
    by_cases key : t.name = r.key
    · rw [if_pos key, if_pos key]
    · rw [if_neg key, if_neg key]
  · rw [if_neg selected, if_neg (show ¬propertyPath.selects place.ancestors t.name = true from selected)]

theorem PropertyValue.settling (r : PropertyValue) : Settling r.visitor where
  idle := rfl
  oblivious := r.visitor_isOblivious
  attr _ := .of_eq_pure (g := id) (fun _ => rfl) fun _ => rfl
  tag := by
    refine finishes_of_choice r.tag_visitor fun place name current again chosen => ?_
    rw [show r.choose place name (some again) = r.choose place name current from rfl, chosen]
    decide

theorem AttributeValue.settling (r : AttributeValue) : Settling r.visitor where
  idle := rfl
  oblivious := r.visitor_isOblivious
  attr place := by
    refine .of_eq_pure (g := fun a => (r.change place a).getD a) (fun _ => rfl) fun a => ?_
    by_cases chosen : a.key = r.key ∧ r.ownerSelected place ∧ a.value ≠ r.new ∧ r.old.all (· == a.value)
    · have given : r.change place a = .changed (a.withValue r.new) := if_pos chosen
      have value : (a.withValue r.new).value = r.new := unescape_escapeAttribute a.quote r.new
      have kept : r.change place (a.withValue r.new) = .unchanged := if_neg fun again => again.2.2.1 value
      rw [given, Visit.getD_changed, kept, Visit.getD_unchanged]
    · have kept : r.change place a = .unchanged := if_neg chosen
      rw [kept, Visit.getD_unchanged, kept, Visit.getD_unchanged]
  tag _ _ := finishes_of_walks fun _ _ _ => rfl

/-- Markers do not show on the walk. -/
theorem rebuildTag_withMarkers (v : Markup.Visitor (StateT Unit Visiting)) (place : Place) (t : Tag)
    (markers : List Marker) :
    v.rebuildTag place { t with markers } = (fun u => { u with markers }) <$> v.rebuildTag place t := by
  obtain ⟨id, leading, _, name, attributes, content, closing, beforeClose⟩ := t
  cases content <;> simp only [Visitor.rebuildTag, map_bind, map_pure]

theorem TagSearch.onElement_eq (r : TagSearch) (place : Place) (t : Tag) :
    onElement r.visitor place t = (do
      let u ← r.visitor.rebuildTag place t
      if place.selectedBy r.path t && !hasSearchResult t.markers then StateT.lift (Visiting.fresh (r.mark u))
      else return u) := by
  have hook (walk : StateT Unit Visiting (Visit Tag)) : r.visitor.tag place t walk = (do
      let visited ← walk
      if place.selectedBy r.path t && !hasSearchResult t.markers then
        return .changed (← StateT.lift (Visiting.fresh (r.mark (visited.getD t))))
      else return visited) := rfl
  rw [onElement, Visit.result, hook, bind_map_left, map_bind]
  refine bind_congr fun u => ?_
  by_cases found : (place.selectedBy r.path t && !hasSearchResult t.markers) = true
  · rw [if_pos found, if_pos found]
    rfl
  · rw [if_neg found, if_neg found]
    rfl

theorem TagSearch.settling (r : TagSearch) : Settling r.visitor where
  idle := rfl
  oblivious := r.visitor_isOblivious
  attr _ := .of_eq_pure (g := id) (fun _ => rfl) fun _ => rfl
  tag place t walked := by
    rw [r.onElement_eq]
    refine walked.bind fun u hu => ?_
    by_cases found : (place.selectedBy r.path t && !hasSearchResult t.markers) = true
    · rw [if_pos found]
      refine Finishes.fresh fun s => ?_
      -- the mark it was given keeps it from getting another one
      let markers := u.markers ++ [Marker.searchResult ⟨s.next⟩ (some r.expression)]
      have marked : hasSearchResult markers = true := by
        rw [hasSearchResult, List.any_append]
        exact Bool.or_true _
      change Finishes (onElement r.visitor place { u with markers }) (· = { u with markers })
      rw [r.onElement_eq, rebuildTag_withMarkers, bind_map_left]
      refine hu.2.bind_eq ?_
      rw [marked, Bool.not_true, Bool.and_false, if_neg Bool.false_ne_true]
      exact .pure rfl
    · rw [if_neg found]
      refine .pure ?_
      have missed : ¬(place.selectedBy r.path u && !hasSearchResult u.markers) = true := by
        rwa [Place.selectedBy, hu.1.name, hu.1.markers]
      rw [r.onElement_eq]
      refine hu.2.bind_eq ?_
      rw [if_neg missed]
      exact .pure rfl

/-- The recipes that set values, and the one that searches for elements. -/
def settlingNames : List String := [ElementValue.name, AttributeValue.name, TagSearch.name, PropertyValue.name]

theorem exists_settling {name : String} (listed : name ∈ settlingNames) {options : Json} {recipe : Recipe}
    (made : builtin? name options = some (.ok recipe)) :
    ∃ v, Settling v ∧ recipe.visitor = some (.ofMarkup v ()) := by
  cases isBuiltin_of_builtin? made with
  | elementValue r => exact ⟨_, r.settling, rfl⟩
  | attributeValue r => exact ⟨_, r.settling, rfl⟩
  | tagSearch r => exact ⟨_, r.settling, rfl⟩
  | propertyValue r => exact ⟨_, r.settling, rfl⟩
  | dependencyVersion _ => exact absurd listed (by decide)
  | textReplacement _ => exact absurd listed (by decide)

theorem run_checkIdempotent {v : SourceVisitor} {after : Source} {s : Session}
    (settled : ((v.visit after).run.run s).1 = .ok .unchanged) (recipe : String) :
    ((Pipeline.checkIdempotent recipe v after).run s).1 = .ok () := by
  rw [Pipeline.checkIdempotent_eq, StateT.run_map, Pipeline.run_guarded, settled]
  rfl

/-- A visit of any document comes to an end, and a visit of what it came to finds nothing to do. So the change stands
the second visit that a run may demand. -/
theorem second_visit_settles {name : String} (listed : name ∈ settlingNames) {options : Json} {recipe : Recipe}
    (made : builtin? name options = some (.ok recipe)) (d : Document) {s : Session}
    (going : s.context.cancelled = false) :
    ∃ v x s', recipe.visitor = some v ∧ (v.visit (.markup d)).run.run s = (.ok x, s') ∧
      s'.context.cancelled = false ∧ ∀ t : Session, t.context.cancelled = false →
        ((v.visit (x.getD (.markup d))).run.run t).1 = .ok .unchanged ∧
        ∀ after, x = .changed after → ((Pipeline.checkIdempotent recipe.name v after).run t).1 = .ok () := by
  obtain ⟨v, settling, hv⟩ := exists_settling listed made
  obtain ⟨x, s', hrun, hs', settles⟩ := settling.finishes_ofMarkup d going
  refine ⟨_, x, s', hv, hrun, hs', fun t ht => ?_⟩
  obtain ⟨t', again⟩ := settles t ht
  refine ⟨congrArg Prod.fst again, ?_⟩
  rintro after rfl
  exact run_checkIdempotent (congrArg Prod.fst again) recipe.name

def unread (content : List Content) : Document :=
  { (default : Document) with
    kind := .xml
    root := ⟨.none, "", [], "a", [], some content, some ⟨.none, "", "a", ""⟩, ""⟩ }

/-- A section and a text become one text with blanks at its ends, which are no part of the value. -/
theorem second_visit_settles_blanks :
    let options := .object [("elementName", .string "/a"), ("newValue", .string " z ")]
    let before := unread [.charData ⟨.none, " ", true, "x"⟩, .charData ⟨.none, "", false, "y "⟩]
    let after := unread [.charData ⟨⟨1⟩, "", false, " z "⟩]
    ∃ recipe v s', builtin? ElementValue.name options = some (.ok recipe) ∧ recipe.visitor = some v ∧
      (v.visit (.markup before)).run.run {} = (.ok (.changed (.markup after)), s') ∧
      ((v.visit (.markup after)).run.run s').1 = .ok .unchanged ∧
      ((Pipeline.checkIdempotent recipe.name v (.markup after)).run s').1 = .ok () := by
  intro options before after
  have made : builtin? ElementValue.name options =
      some (.ok (ElementValue.recipe ⟨⟨"/a", true, ["a"]⟩, none, " z "⟩)) := rfl
  obtain ⟨v, x, s', hv, hrun, hs', settles⟩ := second_visit_settles (by decide) made before (s := {}) rfl
  obtain rfl := Option.some.inj hv
  have changed : (((SourceVisitor.ofMarkup (ElementValue.visitor ⟨⟨"/a", true, ["a"]⟩, none, " z "⟩) ()).visit
      (.markup before)).run.run {}).1 = .ok (.changed (.markup after)) := by decide +kernel
  rw [hrun] at changed
  obtain rfl := Except.ok.inj changed
  exact ⟨_, _, s', made, hv, hrun, (settles s' hs').1, (settles s' hs').2 _ rfl⟩

end Emend.Recipes
