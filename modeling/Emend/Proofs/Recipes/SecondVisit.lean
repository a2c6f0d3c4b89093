import Emend.Proofs.Markup.Readable
import Emend.Proofs.Recipes.Finishing
import Emend.Proofs.Recipes.Rewriting
import Emend.Proofs.Recipes.Visitors
import Emend.Recipes.PropertyValue

/-! # Migrated files stay migrated

A visit that sets values comes to the document that the text it leaves is read as, up to ids and to where blanks
belong. So the next visit of that text finds nothing to do.
-/

namespace Emend.Recipes

open Markup

namespace Rewriting

variable (w : Rewriting)

def visitor : Markup.Visitor (StateT Unit Visiting) where
  target := w.target
  tag place t walk :=
    match w.choose place t.name t.value? with
    | .walk => walk
    | .leave => return .unchanged
    | .set => StateT.lift (Visiting.fresh (.changed <$> t.withValue w.value))
  attr place a := return match w.attribute? place a.key a.value with
    | some new => .changed (a.withValue new)
    | none => .unchanged

theorem visitor_isOblivious : w.visitor.IsOblivious where
  document _ := .walking
  prolog _ := .walking
  declaration _ := .walking
  tag place t := by
    rw [visitor]
    cases h : w.choose place t.name t.value? with
    | walk => simpa only [h] using Oblivious.walking t
    | leave => simpa only [h] using Oblivious.finishing t _
    | set => simpa only [h] using Oblivious.finishing t _

theorem result_attr (place : Place) (a : Attribute) :
    Visit.result (w.visitor.attr place) a = (pure (w.attr place a) : StateT Unit Visiting Attribute) := by
  rw [Visit.result, visitor, map_pure, attr]
  cases w.attribute? place a.key a.value <;> rfl

theorem mapM_result_attr (place : Place) (as : List Attribute) :
    as.mapM (Visit.result (w.visitor.attr place)) = (pure (as.map (w.attr place)) : StateT Unit Visiting _) := by
  rw [funext (w.result_attr place), List.mapM_pure]

theorem attr_eq_self {place : Place} {a : Attribute} (h : w.attribute? place a.key a.value = none) :
    w.attr place a = a := by
  rw [attr, h]

theorem map_attr_eq_self {place : Place} {as : List Attribute}
    (h : ∀ a ∈ as, w.attribute? place a.key a.value = none) : as.map (w.attr place) = as := by
  conv_rhs => rw [← List.map_id as]
  exact List.map_congr_left fun a ha => w.attr_eq_self (h a ha)

/-- Whatever the walk comes to, the hook comes to what is printed as the rewritten element, and to the element
itself if there is nothing to do. -/
theorem finishes_tag {place : Place} {t walked : Tag} {inside : Prop} {naive : StateT Unit Visiting Tag}
    (h : Finishes naive fun u => u.print = walked.print ∧ (inside → u = t)) :
    Finishes (w.visitor.tag place t (.changed <$> naive)) fun x =>
      (x.getD t).print = (w.onTag place t walked).print ∧ (w.SettledOn place t inside → x.getD t = t) := by
  unfold onTag SettledOn visitor
  dsimp only
  cases w.choose place t.name t.value? with
  | walk => exact h.map fun _ hu => hu
  | leave => exact .pure ⟨rfl, fun _ => rfl⟩
  | set => exact .fresh fun s => ⟨print_withValue t w.value s, fun h => congrArg Prod.fst (h.run_withValue s)⟩

mutual

theorem finishes_rebuildTag (place : Place) (t : Tag) :
    Finishes (w.visitor.rebuildTag place t) fun u => u.print = (w.tag place t).print ∧ (w.Settled place t → u = t) := by
  obtain ⟨id, leading, markers, name, attributes, content, closing, beforeClose⟩ := t
  rw [Visitor.rebuildTag]
  refine Finishes.checkpoint.bind fun _ _ => ?_
  dsimp only
  rw [mapM_result_attr, pure_bind]
  cases content with
  | none =>
    rw [pure_bind]
    refine .pure ⟨rfl, fun h => ?_⟩
    rw [w.map_attr_eq_self h.1]
  | some items =>
    have hitems := (finishes_rebuildItems (place.enter name) items).map
      (Q := fun content => ∃ ds, content = some ds ∧
        Content.printAll ds = Content.printAll (w.items (place.enter name) items) ∧
        (w.SettledAll (place.enter name) items → ds = items)) fun ds h => ⟨ds, rfl, h⟩
    refine hitems.bind ?_
    rintro _ ⟨ds, rfl, hp, hs⟩
    refine .pure ⟨?_, fun h => ?_⟩
    · cases closing with
      | none => rfl
      | some c => rw [tag, Tag.print, Tag.print, hp]
    · rw [w.map_attr_eq_self h.1, hs h.2]

theorem finishes_rebuildContent (place : Place) (c : Content) :
    Finishes (w.visitor.rebuildContent place c) fun d =>
      d.print = (w.content place c).print ∧ (w.SettledContent place c → d = c) := by
  cases c with
  | tag t =>
    refine (w.finishes_tag (finishes_rebuildTag place t)).bind fun x hx => .pure ?_
    exact ⟨hx.1, fun h => congrArg Content.tag (hx.2 h)⟩
  | charData d => exact .pure ⟨rfl, fun _ => rfl⟩
  | comment c => exact .pure ⟨rfl, fun _ => rfl⟩
  | instruction i => exact .pure ⟨rfl, fun _ => rfl⟩

theorem finishes_rebuildItems (place : Place) (cs : List Content) :
    Finishes (w.visitor.rebuildItems place cs) fun ds =>
      Content.printAll ds = Content.printAll (w.items place cs) ∧ (w.SettledAll place cs → ds = cs) := by
  cases cs with
  | nil => exact .pure ⟨rfl, fun _ => rfl⟩
  | cons c cs =>
    refine (finishes_rebuildContent place c).bind fun d hd => ?_
    refine (finishes_rebuildItems place cs).bind fun ds hds => .pure ⟨?_, fun h => ?_⟩
    · rw [items, Content.printAll, Content.printAll, hd.1, hds.1]
    · rw [hd.2 h.1, hds.2 h.2]

end

theorem hooksElements_visitor : w.visitor.HooksElements := rfl

theorem rebuildDeclaration_visitor (place : Place) (d : Declaration) :
    w.visitor.rebuildDeclaration place d = (pure (w.declaration place d) : StateT Unit Visiting Declaration) := by
  rw [Visitor.rebuildDeclaration, mapM_result_attr, pure_bind]
  rfl

theorem rebuildProlog_visitor (place : Place) (p : Prolog) :
    w.visitor.rebuildProlog place p =
      (pure { p with declaration := p.declaration.map (w.declaration place) } : StateT Unit Visiting Prolog) := by
  rw [w.hooksElements_visitor.rebuildProlog_eq, funext (w.rebuildDeclaration_visitor place)]
  cases p with
  | mk id declaration misc => cases declaration <;> rfl

theorem declaration_eq_self {place : Place} {d : Declaration} (h : w.SettledDeclaration place d) :
    w.declaration place d = d := by
  rw [declaration, w.map_attr_eq_self h]

theorem finishes_rebuildDocument (d : Document) :
    Finishes (w.visitor.rebuildDocument (Visitor.placeOf d) d) fun e =>
      e.print = (w.document d).print ∧ (w.SettledDocument d → e = d) := by
  rw [w.hooksElements_visitor.rebuildDocument_eq, rebuildProlog_visitor]
  refine Finishes.checkpoint.bind fun _ _ => ?_
  rw [pure_bind, Visit.result, bind_map_left]
  refine (w.finishes_tag (w.finishes_rebuildTag (Visitor.placeOf d) d.root)).bind fun x hx => ?_
  refine .pure ⟨?_, fun h => ?_⟩
  · rw [Document.print, Document.print, document, hx.1]
  · have hd : d.prolog.declaration.map (w.declaration (Visitor.placeOf d)) = d.prolog.declaration := by
      cases e : d.prolog.declaration with
      | none => rfl
      | some y => exact congrArg some (w.declaration_eq_self (h.declaration y e))
    rw [hx.2 h.root, hd]

theorem finishes_visit (d : Document) :
    Finishes (w.visitor.visit d) fun x =>
      (x.getD d).print = (w.document d).print ∧ (w.SettledDocument d → x = .unchanged) := by
  rw [Visitor.visit_eq_of_walking w.visitor_isOblivious fun _ => rfl]
  refine (w.finishes_rebuildDocument d).map fun e he => ?_
  rw [Visit.getD_of_eq]
  exact ⟨he.1, fun h => Visit.of_eq_unchanged.2 (he.2 h)⟩

theorem run_visit_of_cancelled (d : Document) {s : Session} (h : s.context.cancelled = true) :
    ((w.visitor.visit d).run ()).run.run s = (.error (.error .cancelled), s) := by
  have hc := run_checkpoint (k := ()) s
  rw [if_pos h] at hc
  have hwalk : ((w.visitor.walkDocument (Visitor.placeOf d) d).run ()).run.run s = (.error (.error .cancelled), s) := by
    rw [Visitor.walkDocument, StateT.run_bind]
    exact run_bind_of_error hc
  rw [Visitor.visit, StateT.run_bind]
  exact run_bind_of_error hwalk

theorem finishes_sourceVisitor (d : Document) {s : Session} (hs : s.context.cancelled = false) :
    ∃ x s', ((SourceVisitor.ofMarkup w.visitor ()).visit (.markup d)).run.run s = (.ok x, s') ∧
      (∀ e, x = .changed e → e.print = (w.document d).print) ∧ (w.SettledDocument d → x = .unchanged) := by
  by_cases hk : d.kind.isA w.target = true
  · obtain ⟨x, s', hrun, -, hprint, hsettled⟩ := w.finishes_visit d s hs
    refine ⟨_, s', run_ofMarkup hk hrun, fun e he => ?_, fun h => ?_⟩
    · cases x with
      | unchanged => cases he
      | changed d' =>
        cases Visit.eq_changed_of_settle he
        exact hprint
    · rw [hsettled h]
      rfl
  · exact ⟨.unchanged, s, run_ofMarkup_of_other hk s, fun e he => (nomatch he), fun _ => rfl⟩

theorem sourceVisitor_ne_changed (d : Document) {s : Session} (hs : s.context.cancelled = true) (e : Source)
    (s' : Session) :
    ((SourceVisitor.ofMarkup w.visitor ()).visit (.markup d)).run.run s ≠ (.ok (.changed e), s') := by
  have hrun : ((w.visitor.visit d).run' ()).run.run s = (.error (.error .cancelled), s) :=
    run_map_of_run (w.run_visit_of_cancelled d hs)
  rw [SourceVisitor.ofMarkup]
  dsimp only
  split
  · intro h
    rw [run_bind_of_error hrun] at h
    cases h
  · intro h
    cases h

theorem second_visit {path : FilePath} {source : String} {ids ids' : Supply} {d : Document} {e : Source}
    {s s' : Session} (lasts : ∀ x ∈ d.placed, w.LastsOn x.1 x.2)
    (hp : (Document.parse path source).run.run ids = (.ok d, ids'))
    (hv : ((SourceVisitor.ofMarkup w.visitor ()).visit (.markup d)).run.run s = (.ok (.changed e), s'))
    (ids₂ : Supply) :
    ∃ d' ids₂', (Document.parse path e.print).run.run ids₂ = (.ok d', ids₂') ∧
      ∀ t : Session, t.context.cancelled = false →
        (((SourceVisitor.ofMarkup w.visitor ()).visit (.markup d')).run.run t).1 = .ok .unchanged := by
  have hs : s.context.cancelled = false := by
    cases hc : s.context.cancelled with
    | false => rfl
    | true => exact absurd hv (w.sourceVisitor_ne_changed d hc e s')
  obtain ⟨x, s₁, hrun, hprint, -⟩ := w.finishes_sourceVisitor d hs
  obtain ⟨hx, -⟩ := Prod.mk.inj (hv.symm.trans hrun)
  obtain ⟨read, hread, rfl, hd⟩ := exists_readable_of_parse hp
  have lasts_read : ∀ x ∈ read.placed, w.LastsOn x.1 x.2 := by
    intro x hx
    have hx' := List.mem_map_of_mem (f := fun x : Place × Tag => (x.1, x.2.anonymous)) hx
    rw [← Document.placed_anonymous, ← hd, Document.placed_anonymous] at hx'
    obtain ⟨y, hy, e⟩ := List.mem_map.1 hx'
    obtain ⟨place, same⟩ := Prod.mk.inj e
    rw [← lastsOn_anonymous, ← place, ← same, lastsOn_anonymous]
    exact lasts y hy
  -- ids are not printed, so the text left is that of the readable document rewritten
  have he : e.print = (w.document read).print := by
    calc
      e.print = (w.document d).print := hprint e (Except.ok.inj hx).symm
      _ = (w.document d).anonymous.print := (Document.print_anonymous _).symm
      _ = (w.document read).anonymous.print := by rw [document_anonymous, hd, document_anonymous]
      _ = (w.document read).print := Document.print_anonymous _
  obtain ⟨d', ids₂', hparse, hd'⟩ := parse_print_of_readable (w.readable_document hread) ids₂
  -- and it is read as that document up to ids, which do not matter to what is left to do
  have hsettled : w.SettledDocument d' := by
    rw [← settledDocument_anonymous, hd', settledDocument_anonymous]
    exact w.settledDocument_document hread lasts_read
  refine ⟨d', ids₂', by rw [he]; exact hparse, fun t ht => ?_⟩
  obtain ⟨y, t', hrun, -, hy⟩ := w.finishes_sourceVisitor d' ht
  rw [hrun, hy hsettled]

end Rewriting

def ElementValue.rewriting (r : ElementValue) : Rewriting where
  target := .xml
  choose place name current :=
    match current with
    | none => .walk
    | some v =>
      if r.path.selects place.ancestors name then
        if r.old.all (· == v) ∧ v ≠ r.new then .set else .leave
      else .walk
  value := r.new
  attribute? _ _ _ := none
  choose_value {place name current} hc := by
    cases current with
    | none => cases hc
    | some v =>
      dsimp only at hc ⊢
      by_cases hs : r.path.selects place.ancestors name = true
      · rw [if_pos hs]
        split <;> decide
      · rw [if_neg hs] at hc
        cases hc
  attribute?_value h := nomatch h

theorem fresh_setValue (t : Tag) (value : String) :
    Visiting.fresh (setValue t value) =
      if t.value? = some value then pure .unchanged else Visiting.fresh (.changed <$> t.withValue value) := by
  unfold setValue
  split <;> rfl

theorem ElementValue.visitor_eq (r : ElementValue) : r.visitor = r.rewriting.visitor := by
  have htag : r.visitor.tag = r.rewriting.visitor.tag := by
    funext place t walk
    unfold ElementValue.visitor Rewriting.visitor ElementValue.rewriting
    dsimp only
    cases hv : t.value? with
    | none => rfl
    | some current =>
      dsimp only
      by_cases hs : place.selectedBy r.path t = true
      · rw [if_pos hs, if_pos (show r.path.selects place.ancestors t.name = true from hs)]
        by_cases ho : r.old.all (· == current) = true
        · rw [if_pos ho, fresh_setValue, hv]
          by_cases he : current = r.new
          · rw [if_pos (congrArg some he), if_neg fun h => h.2 he]
            rfl
          · rw [if_neg (mt Option.some.inj he), if_pos ⟨ho, he⟩]
        · rw [if_neg ho, if_neg fun h => ho h.1]
      · rw [if_neg hs, if_neg (show ¬r.path.selects place.ancestors t.name = true from hs)]
  rw [show r.visitor = { r.rewriting.visitor with tag := r.visitor.tag } from rfl, htag]

def PropertyValue.rewriting (r : PropertyValue) : Rewriting where
  target := .mavenPom
  choose place name current :=
    if propertyPath.selects place.ancestors name then
      if name = r.key ∧ current ≠ some r.new then .set else .leave
    else .walk
  value := r.new
  attribute? _ _ _ := none
  choose_value {place name current} hc := by
    by_cases hs : propertyPath.selects place.ancestors name = true
    · rw [if_pos hs]
      split <;> decide
    · rw [if_neg hs] at hc
      cases hc
  attribute?_value h := nomatch h

theorem PropertyValue.visitor_eq (r : PropertyValue) : r.visitor = r.rewriting.visitor := by
  have htag : r.visitor.tag = r.rewriting.visitor.tag := by
    funext place t walk
    unfold PropertyValue.visitor Rewriting.visitor PropertyValue.rewriting
    dsimp only
    by_cases hs : place.selectedBy propertyPath t = true
    · rw [if_pos hs, if_pos (show propertyPath.selects place.ancestors t.name = true from hs)]
      by_cases hk : t.name = r.key
      · rw [if_pos hk, fresh_setValue]
        by_cases he : t.value? = some r.new
        · rw [if_pos he, if_neg fun h => h.2 he]
          rfl
        · rw [if_neg he, if_pos ⟨hk, he⟩]
      · rw [if_neg hk, if_neg fun h => hk h.1]
    · rw [if_neg hs, if_neg (show ¬propertyPath.selects place.ancestors t.name = true from hs)]
  rw [show r.visitor = { r.rewriting.visitor with tag := r.visitor.tag } from rfl, htag]

def AttributeValue.rewriting (r : AttributeValue) : Rewriting where
  target := .xml
  choose _ _ _ := .walk
  value := ""
  attribute? place key current :=
    if key = r.key ∧ r.ownerSelected place ∧ current ≠ r.new ∧ r.old.all (· == current) then some r.new else none
  choose_value h := nomatch h
  attribute?_value {place key current new} h := by
    obtain ⟨-, h⟩ := Option.ite_none_right_eq_some.1 h
    cases h
    rw [if_neg]
    rintro ⟨-, -, hne, -⟩
    exact hne rfl

theorem AttributeValue.visitor_eq (r : AttributeValue) : r.visitor = r.rewriting.visitor := by
  have hattr : r.visitor.attr = r.rewriting.visitor.attr := by
    funext place a
    unfold AttributeValue.visitor Rewriting.visitor AttributeValue.rewriting AttributeValue.change
    dsimp only
    by_cases h : a.key = r.key ∧ r.ownerSelected place ∧ a.value ≠ r.new ∧ r.old.all (· == a.value)
    · rw [if_pos h, if_pos h]
    · rw [if_neg h, if_neg h]
  rw [show r.visitor = { r.rewriting.visitor with attr := r.visitor.attr } from rfl, hattr]

/-- The element, given `new`, has the value `new` when it is read back, or at least the text that it was given: `new` is
more than blanks, and there are none in front of the end tag to be read together with it. -/
def LastsIn (new : String) (t : Tag) : Prop :=
  Text.trim new = new ∨ Text.allBlank new = false ∧ ∀ c ∈ t.closing, c.leading = ""

theorem ElementValue.choose_eq_set_iff {r : ElementValue} {place : Place} {name : String} {current : Option String} :
    r.rewriting.choose place name current = .set ↔
      r.path.selects place.ancestors name = true ∧ ∃ v ∈ current, r.old.all (· == v) = true ∧ v ≠ r.new := by
  unfold ElementValue.rewriting
  cases current with
  | none => simp
  | some v =>
    dsimp only
    by_cases hs : r.path.selects place.ancestors name = true
    · rw [if_pos hs]
      by_cases ho : r.old.all (· == v) = true ∧ v ≠ r.new
      · rw [if_pos ho]
        exact iff_of_true rfl ⟨hs, v, rfl, ho⟩
      · rw [if_neg ho]
        refine iff_of_false nofun ?_
        rintro ⟨-, _, ⟨⟩, chosen⟩
        exact ho chosen
    · rw [if_neg hs]
      exact iff_of_false nofun fun h => hs h.1

theorem ElementValue.lastsOn {r : ElementValue} {place : Place} {t : Tag}
    (h : place.selectedBy r.path t = true → (∃ v ∈ t.value?, r.old.all (· == v) = true) →
      r.old.all (· == Text.trim r.new) = true → LastsIn r.new t) : r.rewriting.LastsOn place t := by
  intro first again
  obtain ⟨selected, v, hv, old, -⟩ := choose_eq_set_iff.1 first
  obtain ⟨-, _, ⟨⟩, old', trimmed⟩ := choose_eq_set_iff.1 again
  exact (h selected ⟨v, hv, old⟩ old').resolve_left trimmed

theorem PropertyValue.choose_eq_set_iff {r : PropertyValue} {place : Place} {name : String} {current : Option String} :
    r.rewriting.choose place name current = .set ↔
      propertyPath.selects place.ancestors name = true ∧ name = r.key ∧ current ≠ some r.new := by
  unfold PropertyValue.rewriting
  dsimp only
  by_cases hs : propertyPath.selects place.ancestors name = true
  · rw [if_pos hs]
    by_cases hk : name = r.key ∧ current ≠ some r.new
    · rw [if_pos hk]
      exact iff_of_true rfl ⟨hs, hk⟩
    · rw [if_neg hk]
      exact iff_of_false nofun fun h => hk h.2
  · rw [if_neg hs]
    exact iff_of_false nofun fun h => hs h.1

theorem PropertyValue.lastsOn {r : PropertyValue} {place : Place} {t : Tag}
    (h : place.selectedBy propertyPath t = true → t.name = r.key → LastsIn r.new t) : r.rewriting.LastsOn place t := by
  intro first again
  obtain ⟨selected, key, -⟩ := choose_eq_set_iff.1 first
  obtain ⟨-, -, trimmed⟩ := choose_eq_set_iff.1 again
  exact (h selected key).resolve_left fun same => trimmed (congrArg some same)

/-- The recipes that set a value, and what elements of the document are given lasts. -/
inductive SetsValue (d : Document) : Recipe → Prop
  | ofElement (r : ElementValue)
    (h : ∀ x ∈ d.placed, x.1.selectedBy r.path x.2 = true → (∃ v ∈ x.2.value?, r.old.all (· == v) = true) →
      r.old.all (· == Text.trim r.new) = true → LastsIn r.new x.2) : SetsValue d r.recipe
  | ofAttribute (r : AttributeValue) : SetsValue d r.recipe
  | ofProperty (r : PropertyValue)
    (h : ∀ x ∈ d.placed, x.1.selectedBy propertyPath x.2 = true → x.2.name = r.key → LastsIn r.new x.2) :
    SetsValue d r.recipe

theorem SetsValue.exists_rewriting {d : Document} {recipe : Recipe} (h : SetsValue d recipe) :
    ∃ w : Rewriting, recipe.visitor = some (.ofMarkup w.visitor ()) ∧ ∀ x ∈ d.placed, w.LastsOn x.1 x.2 := by
  cases h with
  | ofElement r h =>
    exact ⟨r.rewriting, by rw [ElementValue.recipe, r.visitor_eq], fun x hx => ElementValue.lastsOn (h x hx)⟩
  | ofAttribute r =>
    exact ⟨r.rewriting, by rw [AttributeValue.recipe, r.visitor_eq], fun _ _ first => nomatch first⟩
  | ofProperty r h =>
    exact ⟨r.rewriting, by rw [PropertyValue.recipe, r.visitor_eq], fun x hx => PropertyValue.lastsOn (h x hx)⟩

/-- When a visit changes a file, the file it leaves can be read again, and every later visit leaves it unchanged. -/
theorem second_visit_unchanged {path : FilePath} {source : String} {ids : Supply} {d : Document}
    (hd : ((Document.parse path source).run.run ids).1 = .ok d) {recipe : Recipe} (hr : SetsValue d recipe)
    {v : SourceVisitor} (hv : recipe.visitor = some v) {s : Session} {e : Source}
    (he : ((v.visit (.markup d)).run.run s).1 = .ok (.changed e)) (ids' : Supply) :
    ∃ d', ((Document.parse path e.print).run.run ids').1 = .ok d' ∧
      ∀ t : Session, t.context.cancelled = false → ((v.visit (.markup d')).run.run t).1 = .ok .unchanged := by
  obtain ⟨w, hw, lasts⟩ := hr.exists_rewriting
  obtain rfl := Option.some.inj (hv.symm.trans hw)
  obtain ⟨d', ids₂, hd', ht⟩ := w.second_visit lasts (Prod.ext hd rfl) (Prod.ext he rfl) ids'
  exact ⟨d', congrArg Prod.fst hd', ht⟩

def readElement (content : List Content) (closing : Closing) : Document where
  id := ⟨1⟩
  path := ⟨"a.xml"⟩
  kind := .xml
  markers := []
  bom := false
  prolog := ⟨⟨2⟩, none, []⟩
  root := ⟨⟨3⟩, "", [], "a", [], some content, some closing, ""⟩
  epilog := []
  eof := ""

def setRoot (new : String) : ElementValue where
  path := ⟨"/a", true, ["a"]⟩
  old := none
  new := new

theorem second_visit_unchanged_element :
    ∃ d', ((Document.parse ⟨"a.xml"⟩ "<a> y &lt;</a>").run.run {}).1 = .ok d' ∧
      (((SourceVisitor.ofMarkup (setRoot " y <").visitor ()).visit (.markup d')).run.run {}).1 = .ok .unchanged := by
  have hd : ((Document.parse ⟨"a.xml"⟩ "<a>x</a>").run.run {}).1 =
      .ok (readElement [.charData ⟨⟨4⟩, "", false, "x"⟩] ⟨⟨5⟩, "", "a", ""⟩) := by decide +kernel
  have hr : SetsValue (readElement [.charData ⟨⟨4⟩, "", false, "x"⟩] ⟨⟨5⟩, "", "a", ""⟩) (setRoot " y <").recipe := by
    refine .ofElement (setRoot " y <") fun x hx _ _ _ => .inr ⟨by decide, fun c hc => ?_⟩
    obtain rfl := List.mem_singleton.1 hx
    cases hc
    rfl
  have he : (((SourceVisitor.ofMarkup (setRoot " y <").visitor ()).visit
      (.markup (readElement [.charData ⟨⟨4⟩, "", false, "x"⟩] ⟨⟨5⟩, "", "a", ""⟩))).run.run {}).1 =
      .ok (.changed (.markup (readElement [.charData ⟨⟨4⟩, "", false, " y &lt;"⟩] ⟨⟨5⟩, "", "a", ""⟩))) := by
    decide +kernel
  have hp : (readElement [.charData ⟨⟨4⟩, "", false, " y &lt;"⟩] ⟨⟨5⟩, "", "a", ""⟩).print = "<a> y &lt;</a>" := by
    decide +kernel
  obtain ⟨d', hd', ht⟩ := second_visit_unchanged hd hr rfl he {}
  exact ⟨d', hp ▸ hd', ht {} rfl⟩

/-- Blanks are read as what stands in front of the end tag, so the element is read without its value and given it
once more. -/
theorem blank_value_set_again : ∃ d e d' e',
    ((Document.parse ⟨"a.xml"⟩ "<a>x</a>").run.run {}).1 = .ok d ∧
    (((SourceVisitor.ofMarkup (setRoot " ").visitor ()).visit (.markup d)).run.run {}).1 = .ok (.changed (.markup e)) ∧
    e.print = "<a> </a>" ∧ ((Document.parse ⟨"a.xml"⟩ e.print).run.run {}).1 = .ok d' ∧
    (((SourceVisitor.ofMarkup (setRoot " ").visitor ()).visit (.markup d')).run.run {}).1 =
      .ok (.changed (.markup e')) ∧ e'.print = "<a>  </a>" := by
  refine ⟨readElement [.charData ⟨⟨4⟩, "", false, "x"⟩] ⟨⟨5⟩, "", "a", ""⟩,
    readElement [.charData ⟨⟨4⟩, "", false, " "⟩] ⟨⟨5⟩, "", "a", ""⟩, readElement [] ⟨⟨4⟩, " ", "a", ""⟩,
    readElement [.charData ⟨⟨1⟩, "", false, " "⟩] ⟨⟨4⟩, " ", "a", ""⟩, ?_, ?_, ?_, ?_, ?_, ?_⟩
  all_goals decide +kernel

/-- Blanks in front of the end tag are read together with the value, and go with it when it is given once more. -/
example : ∃ d e d' e', ((Document.parse ⟨"a.xml"⟩ "<a> </a>").run.run {}).1 = .ok d ∧
    (((SourceVisitor.ofMarkup (setRoot " y").visitor ()).visit (.markup d)).run.run {}).1 = .ok (.changed (.markup e)) ∧
    e.print = "<a> y </a>" ∧ ((Document.parse ⟨"a.xml"⟩ e.print).run.run {}).1 = .ok d' ∧
    (((SourceVisitor.ofMarkup (setRoot " y").visitor ()).visit (.markup d')).run.run {}).1 =
      .ok (.changed (.markup e')) ∧ e'.print = "<a> y</a>" := by
  refine ⟨readElement [] ⟨⟨4⟩, " ", "a", ""⟩, readElement [.charData ⟨⟨1⟩, "", false, " y"⟩] ⟨⟨4⟩, " ", "a", ""⟩,
    readElement [.charData ⟨⟨4⟩, "", false, " y "⟩] ⟨⟨5⟩, "", "a", ""⟩,
    readElement [.charData ⟨⟨4⟩, "", false, " y"⟩] ⟨⟨5⟩, "", "a", ""⟩, ?_, ?_, ?_, ?_, ?_, ?_⟩
  all_goals decide +kernel

end Emend.Recipes
