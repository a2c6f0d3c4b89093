import Emend.Proofs.Markup.Revision
import Emend.Proofs.Recipes.Idempotence

/-! # Visits that edit every element

What the hooks of a visitor do to single elements, its visit does to all elements of a document.
-/

namespace Emend.Recipes

open Markup

variable {σ α β : Type}

/-- In a session that is not cancelled, the visit does to the supply of ids what `y` does, and nothing else. -/
def ActsAs (x : StateT σ Visiting α) (k : σ) (y : Fresh α) : Prop :=
  ∀ s : Session, s.context.cancelled = false →
    (x.run k).run.run s = (.ok ((y.run s.supply).1, k), { s with supply := (y.run s.supply).2 })

namespace ActsAs

variable {x : StateT σ Visiting α} {k : σ} {y : Fresh α}

protected theorem pure (a : α) : ActsAs (pure a) k (pure a) := fun _ _ => rfl

theorem bind {f : α → StateT σ Visiting β} {g : α → Fresh β} (hx : ActsAs x k y) (hf : ∀ a, ActsAs (f a) k (g a)) :
    ActsAs (x >>= f) k (y >>= g) := by
  intro s hs
  rw [StateT.run_bind, run_bind_of_ok (hx s hs)]
  exact hf _ _ hs

theorem map (hx : ActsAs x k y) (f : α → β) : ActsAs (f <$> x) k (f <$> y) := by
  rw [← bind_pure_comp, ← bind_pure_comp]
  exact hx.bind fun a => .pure (f a)

theorem get {f : σ → StateT σ Visiting α} (h : ActsAs (f k) k y) : ActsAs (MonadState.get >>= f) k y :=
  fun s hs => h s hs

theorem fresh (y : Fresh α) : ActsAs (StateT.lift (Visiting.fresh y)) k y := fun _ _ => rfl

theorem checkpoint : ActsAs (σ := σ) Cancellable.checkpoint k (pure ()) := by
  intro s hs
  rw [run_checkpoint, if_neg (by rw [hs]; exact Bool.false_ne_true)]
  rfl

theorem bind_unit {x : StateT σ Visiting Unit} {z : StateT σ Visiting β} {y : Fresh β} (hx : ActsAs x k (pure ()))
    (hz : ActsAs z k y) : ActsAs (x >>= fun _ => z) k y := by
  have both := hx.bind (g := fun _ => y) fun _ => hz
  rwa [pure_bind] at both

end ActsAs

def walked (g : List String → Attribute → Attribute) (f : Edit) (ancestors : List String) (t : Tag) : Fresh Tag :=
  (fun u => { u with attributes := u.attributes.map (g (ancestors ++ [t.name])) }) <$> t.reviseInside f ancestors

/-- No hooks but those for documents, elements and attributes do anything, and none does outside the root element.
Where a walk does to what an element holds what the edit does, the hook for elements does so to the element. -/
structure Revises (v : Markup.Visitor (StateT σ Visiting)) (k : σ) (g : List String → Attribute → Attribute)
    (f : Edit) : Prop where
  idle : v = { target := v.target, document := v.document, tag := v.tag, attr := v.attr }
  attr : ∀ place a, Visit.result (v.attr place) a = pure (g place.ancestors a)
  outside : ∀ a, g [] a = a
  tag : ∀ place t, ActsAs (v.rebuildTag place t) k (walked g f place.ancestors t) →
    ActsAs (Visit.result (fun t => v.tag place t (.changed <$> v.rebuildTag place t)) t) k (t.revise f place.ancestors)

namespace Revises

variable {v : Markup.Visitor (StateT σ Visiting)} {k : σ} {g : List String → Attribute → Attribute} {f : Edit}

theorem mapM_attr (h : Revises v k g f) (place : Place) (as : List Attribute) :
    as.mapM (Visit.result (v.attr place)) = pure (as.map (g place.ancestors)) := by
  rw [funext (h.attr place), List.mapM_pure]

theorem hooksElements (h : Revises v k g f) : v.HooksElements := h.idle

mutual

theorem actsAs_rebuildTag (h : Revises v k g f) (place : Place) (t : Tag) :
    ActsAs (v.rebuildTag place t) k (walked g f place.ancestors t) := by
  obtain ⟨id, leading, markers, name, attributes, content, closing, beforeClose⟩ := t
  rw [Visitor.rebuildTag, walked, Tag.reviseInside, map_bind]
  refine ActsAs.checkpoint.bind_unit ?_
  dsimp only
  rw [h.mapM_attr, pure_bind]
  cases content with
  | none => exact .pure _
  | some items =>
    refine ((h.actsAs_rebuildItems (place.enter name) items).map some).bind fun content => ?_
    exact .pure _

theorem actsAs_rebuildContent (h : Revises v k g f) (place : Place) (c : Content) :
    ActsAs (v.rebuildContent place c) k (c.revise f place.ancestors) := by
  cases c with
  | tag t =>
    have hook := h.tag place t (h.actsAs_rebuildTag place t)
    rw [Visit.result] at hook
    have mapped := hook.map Content.tag
    rwa [Functor.map_map, ← bind_pure_comp] at mapped
  | charData _ | comment _ | instruction _ =>
    rw [h.hooksElements.rebuildContent_of_leaf place rfl]
    exact .pure _

theorem actsAs_rebuildItems (h : Revises v k g f) (place : Place) (cs : List Content) :
    ActsAs (v.rebuildItems place cs) k (Content.reviseAll f place.ancestors cs) := by
  cases cs with
  | nil => exact .pure []
  | cons c cs =>
    rw [Visitor.rebuildItems, Content.reviseAll]
    refine (h.actsAs_rebuildContent place c).bind fun d => ?_
    exact (h.actsAs_rebuildItems place cs).bind fun ds => .pure (d :: ds)

end

theorem rebuildDeclaration_eq (h : Revises v k g f) {place : Place} (outside : place.ancestors = [])
    (d : Declaration) : v.rebuildDeclaration place d = pure d := by
  rw [Visitor.rebuildDeclaration, h.mapM_attr, pure_bind, outside, funext h.outside, List.map_id']

theorem rebuildProlog_eq (h : Revises v k g f) {place : Place} (outside : place.ancestors = []) (p : Prolog) :
    v.rebuildProlog place p = pure p := by
  rw [h.hooksElements.rebuildProlog_eq, funext (h.rebuildDeclaration_eq outside)]
  cases p with
  | mk id declaration misc => cases declaration <;> rfl

/-- The visit of a document edits every element, and nothing else. -/
theorem actsAs_rebuildDocument (h : Revises v k g f) (d : Document) :
    ActsAs (v.rebuildDocument (Visitor.placeOf d) d) k (d.revise f) := by
  have hook := h.tag (Visitor.placeOf d) d.root (h.actsAs_rebuildTag (Visitor.placeOf d) d.root)
  rw [h.hooksElements.rebuildDocument_eq, h.rebuildProlog_eq rfl]
  refine ActsAs.checkpoint.bind_unit ?_
  rw [pure_bind, bind_pure_comp]
  exact hook.map fun root => { d with root }

end Revises

theorem bind_eq_self {y : Fresh α} {f : α → Fresh α} (h : ∀ s, f (y.run s).1 = pure (y.run s).1) : y >>= f = y := by
  funext s
  change (f (y.run s).1).run (y.run s).2 = y.run s
  rw [h]
  rfl

theorem walked_of_idle (f : Edit) (ancestors : List String) (t : Tag) :
    walked (fun _ a => a) f ancestors t = t.reviseInside f ancestors := by
  have same : (fun u : Tag => { u with attributes := u.attributes.map fun a => a }) = id := by
    funext u
    cases u
    rw [List.map_id']
    rfl
  rw [walked, same, id_map]

section

variable {v : Markup.Visitor (StateT σ Visiting)} {place : Place} {t : Tag} {k : σ}

theorem result_of_walks {naive : Tag → StateT σ Visiting Tag} (h : ∀ walk, v.tag place t walk = walk) :
    Visit.result (fun t => v.tag place t (.changed <$> naive t)) t = naive t := by
  rw [Visit.result, h, Functor.map_map]
  exact id_map (naive t)

theorem actsAs_of_fresh {naive : Tag → StateT σ Visiting Tag} {y : Fresh (Visit Tag)}
    (h : ∀ walk, v.tag place t walk = StateT.lift (Visiting.fresh y)) :
    ActsAs (Visit.result (fun t => v.tag place t (.changed <$> naive t)) t) k ((·.getD t) <$> y) := by
  rw [Visit.result, h]
  exact (ActsAs.fresh y).map _

theorem actsAs_of_leaves {naive : Tag → StateT σ Visiting Tag} (h : ∀ walk, v.tag place t walk = pure .unchanged) :
    ActsAs (Visit.result (fun t => v.tag place t (.changed <$> naive t)) t) k (pure t) := by
  rw [Visit.result, h]
  exact .pure t

end

theorem textOf_reviseAll (f : Edit) (ancestors : List String) (cs : List Content) (s : Supply) :
    Tag.textOf ((Content.reviseAll f ancestors cs).run s).1 = Tag.textOf cs := by
  induction cs generalizing s with
  | nil => rfl
  | cons c cs ih =>
    cases c with
    | tag t => rfl
    | charData d => exact congrArg (Option.map (d.value ++ ·)) (ih s)
    | comment _ | instruction _ => rfl

/-- What an element holds is edited, but its value stays. -/
theorem value?_reviseInside (f : Edit) (ancestors : List String) (t : Tag) (s : Supply) :
    ((t.reviseInside f ancestors).run s).1.value? = t.value? := by
  obtain ⟨id, leading, markers, name, attributes, content, closing, beforeClose⟩ := t
  cases content with
  | none => rfl
  | some items =>
    have text := textOf_reviseAll f (ancestors ++ [name]) items s
    rw [Tag.value?_of_content rfl, Tag.value?_of_content rfl]
    exact congrArg (Option.map Text.trim) text

/-- In an element with a value there are no elements. -/
theorem reviseAll_of_textOf (f : Edit) (ancestors : List String) {cs : List Content} (h : Tag.textOf cs ≠ none) :
    Content.reviseAll f ancestors cs = pure cs := by
  induction cs with
  | nil => rfl
  | cons c cs ih =>
    cases c with
    | tag _ | comment _ | instruction _ => exact absurd rfl h
    | charData d =>
      have rest : Tag.textOf cs ≠ none := fun none => h (by rw [Tag.textOf, none]; rfl)
      rw [Content.reviseAll, ih rest]
      rfl

theorem reviseInside_of_value (f : Edit) (ancestors : List String) {t : Tag} (h : t.value? ≠ none) :
    t.reviseInside f ancestors = pure t := by
  obtain ⟨id, leading, markers, name, attributes, content, closing, beforeClose⟩ := t
  rw [Tag.reviseInside]
  cases content with
  | none => rfl
  | some items =>
    have text : Tag.textOf items ≠ none := fun none => h (by rw [Tag.value?_of_content rfl, none]; rfl)
    rw [Content.reviseBody, reviseAll_of_textOf f _ text]
    rfl

/-- The elements on the path whose value is `old`, if that is given, and not `new` are given the value `new`. -/
def ElementValue.edit (r : ElementValue) : Edit := fun ancestors t =>
  match t.value? with
  | some current =>
    if r.path.selects ancestors t.name ∧ r.old.all (· == current) ∧ current ≠ r.new then t.withValue r.new
    else return t
  | none => return t

def AttributeValue.onAttribute (r : AttributeValue) (ancestors : List String) (owner : String) (a : Attribute) :
    Attribute :=
  if a.key = r.key ∧ r.path.selects ancestors owner ∧ a.value ≠ r.new ∧ r.old.all (· == a.value) then
    a.withValue r.new
  else a

/-- On the elements on the path, the attributes called `key` whose value is `old`, if that is given, and not `new`
are given the value `new`. -/
def AttributeValue.edit (r : AttributeValue) : Edit := fun ancestors t =>
  return { t with attributes := t.attributes.map (r.onAttribute ancestors t.name) }

/-- The elements on the path get one more marker. -/
def TagSearch.edit (r : TagSearch) : Edit := fun ancestors t =>
  if r.path.selects ancestors t.name then r.mark t else return t

theorem ElementValue.edit_of_valueless (r : ElementValue) (ancestors : List String) {t : Tag} (h : t.value? = none) :
    r.edit ancestors t = pure t := by
  rw [edit, h]

theorem ElementValue.edit_of_value (r : ElementValue) (ancestors : List String) {t : Tag} {current : String}
    (h : t.value? = some current) :
    r.edit ancestors t =
      if r.path.selects ancestors t.name ∧ r.old.all (· == current) ∧ current ≠ r.new then t.withValue r.new
      else pure t := by
  rw [edit, h]

theorem getD_setValue (t : Tag) (value : String) :
    (·.getD t) <$> setValue t value = if t.value? = some value then pure t else t.withValue value := by
  unfold setValue
  split
  · rfl
  · rw [map_bind]
    rfl

theorem ElementValue.revises (r : ElementValue) : Revises r.visitor () (fun _ a => a) r.edit where
  idle := rfl
  attr _ _ := rfl
  outside _ := rfl
  tag place t naive := by
    rw [walked_of_idle] at naive
    rw [Tag.revise_eq]
    -- an element without a value is walked through; in one with a value no element is left, so its own hook decides
    cases value : t.value? with
    | none =>
      rw [result_of_walks fun walk => by rw [r.tag_visitor, value]; rfl, bind_eq_self]
      · exact naive
      · intro s
        exact r.edit_of_valueless _ (by rw [value?_reviseInside, value])
    | some current =>
      have choice : r.choose place t.name t.value? = if r.path.selects place.ancestors t.name then
          if r.old.all (· == current) then .set else .leave else .walk := by
        rw [value]
        rfl
      rw [reviseInside_of_value _ _ (by rw [value]; nofun)] at naive ⊢
      rw [pure_bind, r.edit_of_value _ value]
      by_cases selected : r.path.selects place.ancestors t.name = true
      · rw [if_pos selected] at choice
        by_cases old : r.old.all (· == current) = true
        · rw [if_pos old] at choice
          have set :
            ActsAs (Visit.result (fun t => r.visitor.tag place t (.changed <$> r.visitor.rebuildTag place t)) t)
              () ((·.getD t) <$> setValue t r.new) := actsAs_of_fresh fun walk => by rw [r.tag_visitor, choice]
          rw [getD_setValue, value] at set
          by_cases new : current = r.new
          · rw [if_pos (congrArg some new)] at set
            rwa [if_neg fun h => h.2.2 new]
          · rw [if_neg (mt Option.some.inj new)] at set
            rwa [if_pos ⟨selected, old, new⟩]
        · rw [if_neg old] at choice
          rw [if_neg fun h => old h.2.1]
          exact actsAs_of_leaves fun walk => by rw [r.tag_visitor, choice]
      · rw [if_neg selected] at choice
        rw [result_of_walks fun walk => by rw [r.tag_visitor, choice], if_neg fun h => selected h.1]
        exact naive

/-- The attribute of an element inside elements called as the list says, the last of which owns it. -/
def AttributeValue.inside (r : AttributeValue) (ancestors : List String) (a : Attribute) : Attribute :=
  match ancestors.getLast? with
  | some owner => r.onAttribute ancestors.dropLast owner a
  | none => a

theorem AttributeValue.inside_concat (r : AttributeValue) (ancestors : List String) (owner : String) :
    r.inside (ancestors ++ [owner]) = r.onAttribute ancestors owner := by
  funext a
  rw [inside, List.getLast?_concat, List.dropLast_concat]

theorem AttributeValue.getD_change (r : AttributeValue) (place : Place) (a : Attribute) :
    (r.change place a).getD a = r.inside place.ancestors a := by
  unfold change inside ownerSelected
  cases place.ancestors.getLast? with
  | none =>
    rw [if_neg fun h => absurd h.2.1 Bool.false_ne_true]
    rfl
  | some owner => exact apply_ite (Visit.getD a) _ _ _

theorem AttributeValue.revises (r : AttributeValue) : Revises r.visitor () r.inside r.edit where
  idle := rfl
  attr place a := by
    rw [← r.getD_change place a]
    rfl
  outside _ := rfl
  tag place t naive := by
    have same : walked r.inside r.edit place.ancestors t = t.revise r.edit place.ancestors := by
      rw [Tag.revise_eq, walked, Tag.reviseInside, map_bind, bind_assoc, r.inside_concat]
      rfl
    rw [result_of_walks fun _ => rfl, ← same]
    exact naive

/-- What the search does: elements with a search result are passed over. -/
def TagSearch.editUnfound (r : TagSearch) : Edit := fun ancestors t =>
  if r.path.selects ancestors t.name && !hasSearchResult t.markers then r.mark t else return t

theorem TagSearch.revises (r : TagSearch) : Revises r.visitor () (fun _ a => a) r.editUnfound where
  idle := rfl
  attr _ _ := rfl
  outside _ := rfl
  tag place t naive := by
    rw [walked_of_idle] at naive
    -- the search looks at the element before it looks into it, but neither name nor markers change there
    have same : t.reviseInside r.editUnfound place.ancestors >>= r.editUnfound place.ancestors =
        t.reviseInside r.editUnfound place.ancestors >>= fun u =>
          if place.selectedBy r.path t && !hasSearchResult t.markers then r.mark u else pure u := by
      rw [Tag.reviseInside, bind_assoc, bind_assoc]
      rfl
    have hook := r.onElement_eq place t
    rw [onElement] at hook
    rw [hook, Tag.revise_eq, same]
    refine naive.bind fun u => ?_
    by_cases found : (place.selectedBy r.path t && !hasSearchResult t.markers) = true
    · rw [if_pos found, if_pos found]
      exact .fresh (r.mark u)
    · rw [if_neg found, if_neg found]
      exact .pure u

/-- In a tree in which nothing was found as yet, no element is passed over. -/
theorem TagSearch.revise_editUnfound (r : TagSearch) {d : Document}
    (unfound : ∀ t ∈ d.root.elements, hasSearchResult t.markers = false) :
    d.revise r.editUnfound = d.revise r.edit := by
  rw [Document.revise, Document.revise, Tag.revise_congr d.root]
  intro t ht more content
  rw [editUnfound, edit]
  dsimp only
  rw [unfound t ht, Bool.not_false, Bool.and_true]

section

variable {v : Markup.Visitor (StateT σ Visiting)} {k : σ} {g : List String → Attribute → Attribute} {f : Edit}

/-- In a session that is not cancelled, the visit of the document makes of it what the edit makes of all its elements,
finds no change if that is the document itself, and takes ids only. -/
def Edits (v : SourceVisitor) (d : Document) (f : Edit) : Prop :=
  ∀ s : Session, s.context.cancelled = false →
    (v.visit (.markup d)).run.run s =
      (.ok (if ((d.revise f).run s.supply).1 = d then .unchanged else .changed (.markup ((d.revise f).run s.supply).1)),
        { s with supply := ((d.revise f).run s.supply).2 })

theorem settle_markup_of {d e : Document} (path : e.path = d.path) :
    ((Visit.of d e).map Source.markup).settle (.markup d) = if e = d then .unchanged else .changed (.markup e) := by
  by_cases same : e = d
  · rw [if_pos same, Visit.of_eq_unchanged.2 same]
    rfl
  · rw [if_neg same, Visit.of_of_not_same (mt SameAs.same_iff.1 same)]
    refine Visit.of_of_not_same fun sameFile => same ?_
    exact eq_of_same_markup path sameFile

theorem Revises.edits {f' : Edit} {d : Document} (h : Revises v k g f) (oblivious : v.IsOblivious)
    (walks : ∀ walk, v.document (Visitor.placeOf d) d walk = walk) (accepted : d.kind.isA v.target = true)
    (same : d.revise f = d.revise f') : Edits (.ofMarkup v k) d f' := by
  intro s hs
  have visit := ((h.actsAs_rebuildDocument d).map (Visit.of d)) s hs
  rw [← Visitor.visit_eq_of_walking oblivious walks, same] at visit
  rw [run_ofMarkup accepted visit]
  congr 2
  exact settle_markup_of rfl

end

/-- The visit of a recipe that sets values, or searches a document in which nothing was found as yet, edits every
element by what stands there alone. -/
theorem recipes_edit_each_element {d : Document} (markup : d.kind.isA .xml = true) :
    (∀ r : ElementValue, ∃ v, r.recipe.visitor = some v ∧ Edits v d r.edit) ∧
    (∀ r : AttributeValue, ∃ v, r.recipe.visitor = some v ∧ Edits v d r.edit) ∧
    ∀ r : TagSearch, (∀ t ∈ d.root.elements, hasSearchResult t.markers = false) →
      ∃ v, r.recipe.visitor = some v ∧ Edits v d r.edit := by
  refine ⟨fun r => ⟨_, rfl, ?_⟩, fun r => ⟨_, rfl, ?_⟩, fun r unfound => ⟨_, rfl, ?_⟩⟩
  · exact r.revises.edits r.visitor_isOblivious (fun _ => rfl) markup rfl
  · exact r.revises.edits r.visitor_isOblivious (fun _ => rfl) markup rfl
  · exact r.revises.edits r.visitor_isOblivious (fun _ => rfl) markup (r.revise_editUnfound unfound)

/-- An element with an attribute and a text, inside one of the same name. -/
def elementInElement (outer inner : List Marker) (value : String) (text : CharData) : Document :=
  { unread [.tag ⟨.none, "", inner, "a", [⟨.none, " ", [], "k", "", "", .double, value⟩],
      some [.charData text], some ⟨.none, "", "a", ""⟩, ""⟩] with root.markers := outer }

/-- Both elements are on the path. -/
theorem recipes_edit_each_element_nested :
    let path : TagPath := ⟨"//a", false, ["a"]⟩
    let text : CharData := ⟨.none, "", false, "x"⟩
    let before := elementInElement [] [] "y" text
    let found (id : NodeId) : Marker := .searchResult id (some "//a")
    before.kind.isA .xml = true ∧ (∀ t ∈ before.root.elements, hasSearchResult t.markers = false) ∧
      (∃ v, (ElementValue.recipe ⟨path, some "x", "z"⟩).visitor = some v ∧ ((v.visit (.markup before)).run.run {}).1 =
        .ok (.changed (.markup (elementInElement [] [] "y" ⟨.none, "", false, "z"⟩)))) ∧
      (∃ v, (AttributeValue.recipe ⟨path, "k", none, "z\""⟩).visitor = some v ∧
        ((v.visit (.markup before)).run.run {}).1 =
          .ok (.changed (.markup (elementInElement [] [] "z&quot;" text)))) ∧
      ∃ v, (TagSearch.recipe ⟨"//a", path⟩).visitor = some v ∧ ((v.visit (.markup before)).run.run {}).1 =
        .ok (.changed (.markup (elementInElement [found ⟨2⟩] [found ⟨1⟩] "y" text))) := by
  intro path text before found
  have markup : before.kind.isA .xml = true := rfl
  have unfound : ∀ t ∈ before.root.elements, hasSearchResult t.markers = false := by decide +kernel
  obtain ⟨elements, attributes, searches⟩ := recipes_edit_each_element markup
  obtain ⟨v, hv, sets⟩ := elements ⟨path, some "x", "z"⟩
  obtain ⟨v', hv', gives⟩ := attributes ⟨path, "k", none, "z\""⟩
  obtain ⟨v'', hv'', marks⟩ := searches ⟨"//a", path⟩ unfound
  refine ⟨markup, unfound, ⟨v, hv, ?_⟩, ⟨v', hv', ?_⟩, v'', hv'', ?_⟩
  · exact (congrArg Prod.fst (sets {} rfl)).trans (by decide +kernel)
  · exact (congrArg Prod.fst (gives {} rfl)).trans (by decide +kernel)
  · exact (congrArg Prod.fst (marks {} rfl)).trans (by decide +kernel)

end Emend.Recipes
