import Emend.Markup.Traversal
import Emend.Proofs.Markup.Placed
import Emend.Proofs.Markup.Values

/-! # Rewriting values

What the recipes that set values make of a document, read back from its text: each element is walked through,
left as it is, or given the value; attributes get theirs on the way. Doing it again finds nothing to do, because
what was given a value is not chosen once more.
-/

namespace Emend.Recipes

open Markup

inductive Choice where
  | walk
  | leave
  | set
deriving DecidableEq

/-- A choice for each element, by its place, name and value, and new values for attributes. What was given a value is
not walked through, and an attribute that has the new value is not given it. -/
structure Rewriting where
  target : SourceKind
  choose : Place → String → Option String → Choice
  value : String
  attribute? : Place → String → String → Option String
  choose_value : ∀ {place name current}, choose place name current = .set →
    choose place name (some (Text.trim value)) ≠ .walk
  attribute?_value : ∀ {place key current new}, attribute? place key current = some new →
    attribute? place key new = none

namespace Rewriting

variable (w : Rewriting)

def attr (place : Place) (a : Attribute) : Attribute :=
  match w.attribute? place a.key a.value with
  | some new => a.withValue new
  | none => a

/-- The element, or `walked` if it is to be walked through, or what it is read as with the value. -/
def onTag (place : Place) (t walked : Tag) : Tag :=
  match w.choose place t.name t.value? with
  | .walk => walked
  | .leave => t
  | .set => t.filled w.value

mutual

def tag (w : Rewriting) (place : Place) : Tag → Tag
  | ⟨id, leading, markers, name, attributes, content, closing, beforeClose⟩ =>
    ⟨id, leading, markers, name, attributes.map (w.attr (place.enter name)),
      match content with
      | some items => some (w.items (place.enter name) items)
      | none => none,
      closing, beforeClose⟩

def content (w : Rewriting) (place : Place) : Content → Content
  | .tag t => .tag (w.onTag place t (w.tag place t))
  | .charData d => .charData d
  | .comment c => .comment c
  | .instruction i => .instruction i

def items (w : Rewriting) (place : Place) : List Content → List Content
  | [] => []
  | c :: cs => w.content place c :: w.items place cs

end

def declaration (place : Place) (d : Declaration) : Declaration :=
  { d with attributes := d.attributes.map (w.attr place) }

def document (d : Document) : Document :=
  { d with
    prolog := { d.prolog with declaration := d.prolog.declaration.map (w.declaration (Visitor.placeOf d)) }
    root := w.onTag (Visitor.placeOf d) d.root (w.tag (Visitor.placeOf d) d.root) }

theorem attr_cases (place : Place) (a : Attribute) :
    w.attr place a = a ∧ w.attribute? place a.key a.value = none ∨
      ∃ new, w.attr place a = a.withValue new ∧ w.attribute? place a.key a.value = some new := by
  unfold attr
  cases h : w.attribute? place a.key a.value with
  | none => exact .inl ⟨rfl, rfl⟩
  | some new => exact .inr ⟨new, rfl, rfl⟩

theorem leading_attr (place : Place) (a : Attribute) : (w.attr place a).leading = a.leading := by
  obtain ⟨h, -⟩ | ⟨new, h, -⟩ := w.attr_cases place a
  · rw [h]
  · rw [h]
    rfl

theorem anonymous_attr (place : Place) (a : Attribute) : (w.attr place a).anonymous = w.attr place a.anonymous := by
  unfold attr
  rw [show a.anonymous.key = a.key from rfl, show a.anonymous.value = a.value from rfl]
  cases w.attribute? place a.key a.value <;> rfl

theorem map_anonymous_attr (place : Place) (as : List Attribute) :
    (as.map (w.attr place)).map Attribute.anonymous = (as.map Attribute.anonymous).map (w.attr place) := by
  rw [List.map_map, List.map_map]
  exact List.map_congr_left fun a _ => w.anonymous_attr place a

theorem normal_attr (place : Place) {a : Attribute} (h : a.Normal) : (w.attr place a).Normal := by
  obtain ⟨e, -⟩ | ⟨new, e, -⟩ := w.attr_cases place a
  · rwa [e]
  · rw [e]
    exact h.withValue new

theorem attribute?_attr (place : Place) (a : Attribute) :
    w.attribute? place (w.attr place a).key (w.attr place a).value = none := by
  obtain ⟨e, h⟩ | ⟨new, e, h⟩ := w.attr_cases place a
  · rwa [e]
  · rw [e]
    have hv : (a.withValue new).value = new := unescape_escapeAttribute a.quote new
    rw [hv]
    exact w.attribute?_value h

theorem onTag_anonymous {place : Place} {t u : Tag} :
    (w.onTag place t u).anonymous = w.onTag place t.anonymous u.anonymous := by
  unfold onTag
  rw [t.name_anonymous, t.value?_anonymous]
  cases w.choose place t.name t.value? with
  | walk => rfl
  | leave => rfl
  | set => exact t.filled_anonymous w.value

mutual

theorem tag_anonymous (place : Place) (t : Tag) : (w.tag place t).anonymous = w.tag place t.anonymous := by
  obtain ⟨id, leading, markers, name, attributes, content, closing, beforeClose⟩ := t
  cases content with
  | none => rw [tag, Tag.anonymous, Tag.anonymous, tag, map_anonymous_attr]
  | some items => rw [tag, Tag.anonymous, Tag.anonymous, tag, map_anonymous_attr, items_anonymous]

theorem content_anonymous (place : Place) (c : Content) :
    (w.content place c).anonymous = w.content place c.anonymous := by
  cases c with
  | tag t =>
    rw [content, Content.anonymous, Content.anonymous, content, onTag_anonymous, tag_anonymous place t]
  | charData d => rfl
  | comment c => rfl
  | instruction i => rfl

theorem items_anonymous (place : Place) (cs : List Content) :
    Content.anonymousAll (w.items place cs) = w.items place (Content.anonymousAll cs) := by
  cases cs with
  | nil => rfl
  | cons c cs => exact congrArg₂ List.cons (content_anonymous place c) (items_anonymous place cs)

end

theorem declaration_anonymous (place : Place) (d : Declaration) :
    (w.declaration place d).anonymous = w.declaration place d.anonymous := by
  rw [declaration, Declaration.anonymous, map_anonymous_attr]
  rfl

theorem document_anonymous (d : Document) : (w.document d).anonymous = w.document d.anonymous := by
  have hd : (d.prolog.declaration.map (w.declaration (Visitor.placeOf d))).map Declaration.anonymous =
      (d.prolog.declaration.map Declaration.anonymous).map (w.declaration (Visitor.placeOf d)) := by
    rw [Option.map_map, Option.map_map]
    exact congrArg (Option.map · _) (funext (w.declaration_anonymous _))
  rw [document, Document.anonymous, Prolog.anonymous, hd, onTag_anonymous, tag_anonymous]
  rfl

theorem items_eq_map (place : Place) (cs : List Content) : w.items place cs = cs.map (w.content place) := by
  induction cs with
  | nil => rfl
  | cons c cs ih => rw [items, ih, List.map_cons]

theorem onTag_cases (place : Place) (t walked : Tag) :
    w.onTag place t walked = walked ∨ w.onTag place t walked = t ∨ w.onTag place t walked = t.filled w.value := by
  unfold onTag
  cases w.choose place t.name t.value? with
  | walk => exact .inl rfl
  | leave => exact .inr (.inl rfl)
  | set => exact .inr (.inr rfl)

theorem name_tag (place : Place) (t : Tag) : (w.tag place t).name = t.name := by
  cases t
  rfl

theorem leading_tag (place : Place) (t : Tag) : (w.tag place t).leading = t.leading := by
  cases t
  rfl

theorem name_onTag (place : Place) (t : Tag) : (w.onTag place t (w.tag place t)).name = t.name := by
  obtain h | h | h := w.onTag_cases place t (w.tag place t)
  · rw [h, name_tag]
  · rw [h]
  · rw [h, t.name_filled]

theorem leading_onTag (place : Place) (t : Tag) : (w.onTag place t (w.tag place t)).leading = t.leading := by
  obtain h | h | h := w.onTag_cases place t (w.tag place t)
  · rw [h, leading_tag]
  · rw [h]
  · rw [h, t.leading_filled]

theorem leading_content (place : Place) (c : Content) : (w.content place c).leading = c.leading := by
  cases c with
  | tag t => exact w.leading_onTag place t
  | charData d => rfl
  | comment c => rfl
  | instruction i => rfl

theorem isText_content (place : Place) (c : Content) : (w.content place c).isText = c.isText := by
  cases c <;> rfl

theorem normalLeaf_content (place : Place) {c : Content} (h : c.NormalLeaf) : (w.content place c).NormalLeaf := by
  cases c with
  | tag t => trivial
  | charData d => exact h
  | comment c => exact h
  | instruction i => exact h

theorem separated_items (place : Place) {last : String} {cs : List Content} (h : Separated last cs) :
    Separated last (w.items place cs) := by
  refine (separated_congr ?_).1 h
  rw [items_eq_map, List.map_map]
  exact List.map_congr_left fun c _ => (Prod.ext (w.leading_content place c) (w.isText_content place c)).symm

theorem textOf_items (place : Place) (cs : List Content) : Tag.textOf (w.items place cs) = Tag.textOf cs := by
  induction cs with
  | nil => rfl
  | cons c cs ih =>
    cases c with
    | charData d => rw [items, content, Tag.textOf, Tag.textOf, ih]
    | _ => rfl

theorem value?_tag (place : Place) (t : Tag) : (w.tag place t).value? = t.value? := by
  obtain ⟨id, leading, markers, name, attributes, content, closing, beforeClose⟩ := t
  cases content with
  | none => rfl
  | some items => rw [Tag.value?_of_content rfl, Tag.value?_of_content rfl, textOf_items]

theorem sound_tag (place : Place) {t : Tag} (h : t.Sound) : (w.tag place t).Sound := by
  obtain ⟨id, leading, markers, name, attributes, content, closing, beforeClose⟩ := t
  have ha : ∀ a ∈ attributes.map (w.attr (place.enter name)), a.Normal ∧ a.leading ≠ "" := by
    intro a hm
    obtain ⟨b, hb, rfl⟩ := List.mem_map.1 hm
    obtain ⟨hn, hl⟩ := h.attributes b hb
    exact ⟨w.normal_attr _ hn, by rwa [leading_attr]⟩
  refine ⟨h.leading, h.markers, h.name, ha, h.beforeClose, ?_⟩
  have hb := h.body
  cases content with
  | none => exact hb
  | some items =>
    cases closing with
    | none => exact hb
    | some c =>
      obtain ⟨hl, hs, hc⟩ := hb
      refine ⟨fun x hx => ?_, w.separated_items _ hs, hc⟩
      rw [items_eq_map] at hx
      obtain ⟨y, hy, rfl⟩ := List.mem_map.1 hx
      exact w.normalLeaf_content _ (hl y hy)

theorem sound_onTag (place : Place) {t : Tag} (h : t.Sound) : (w.onTag place t (w.tag place t)).Sound := by
  obtain e | e | e := w.onTag_cases place t (w.tag place t)
  · rw [e]
    exact w.sound_tag place h
  · rwa [e]
  · rw [e]
    exact h.filled w.value

/-- `u` is what `t` became. -/
def Keeps (t u : Tag) : Prop := u.name = t.name ∧ (t.Sound → u.Sound)

/-- What became of the elements inside an element, from what becomes of them if it is walked through. -/
theorem mem_elementsBody_onTag {place : Place} {t walked : Tag}
    (h : ∀ u ∈ Content.elementsBody walked.content, ∃ v ∈ Content.elementsBody t.content, Keeps v u) :
    ∀ u ∈ Content.elementsBody (w.onTag place t walked).content, ∃ v ∈ Content.elementsBody t.content, Keeps v u := by
  intro u hu
  obtain e | e | e := w.onTag_cases place t walked
  · exact h u (by rwa [e] at hu)
  · exact ⟨u, by rwa [e] at hu, rfl, id⟩
  · rw [e, t.elementsBody_filled] at hu
    cases hu

mutual

theorem mem_elementsBody_tag (place : Place) (t : Tag) :
    ∀ u ∈ Content.elementsBody (w.tag place t).content, ∃ v ∈ Content.elementsBody t.content, Keeps v u := by
  obtain ⟨id, leading, markers, name, attributes, content, closing, beforeClose⟩ := t
  cases content with
  | none =>
    intro u hu
    cases hu
  | some items => exact mem_elementsAll_items (place.enter name) items

theorem mem_elements_content (place : Place) (c : Content) :
    ∀ u ∈ (w.content place c).elements, ∃ v ∈ c.elements, Keeps v u := by
  intro u hu
  cases c with
  | tag t =>
    obtain rfl | ⟨items, hi, hu⟩ := Tag.mem_elements_iff.1 hu
    · exact ⟨t, t.mem_elements_self, w.name_onTag place t, w.sound_onTag place⟩
    · obtain ⟨v, hv, hk⟩ := w.mem_elementsBody_onTag (mem_elementsBody_tag place t) u
        (Content.mem_elementsBody_iff.2 ⟨items, hi, hu⟩)
      exact ⟨v, Tag.mem_elements_iff.2 (.inr (Content.mem_elementsBody_iff.1 hv)), hk⟩
  | charData d => cases hu
  | comment c => cases hu
  | instruction i => cases hu

theorem mem_elementsAll_items (place : Place) (cs : List Content) :
    ∀ u ∈ Content.elementsAll (w.items place cs), ∃ v ∈ Content.elementsAll cs, Keeps v u := by
  intro u hu
  cases cs with
  | nil => cases hu
  | cons c cs =>
    obtain hu | hu := List.mem_append.1 hu
    · obtain ⟨v, hv, hk⟩ := mem_elements_content place c u hu
      exact ⟨v, List.mem_append_left _ hv, hk⟩
    · obtain ⟨v, hv, hk⟩ := mem_elementsAll_items place cs u hu
      exact ⟨v, List.mem_append_right _ hv, hk⟩

end

theorem depth_onTag_le {place : Place} {t walked : Tag} (h : walked.depth ≤ t.depth) :
    (w.onTag place t walked).depth ≤ t.depth := by
  obtain e | e | e := w.onTag_cases place t walked
  · rwa [e]
  · rw [e]
  · rw [e]
    exact t.depth_filled_le w.value

mutual

theorem depth_tag_le (place : Place) (t : Tag) : (w.tag place t).depth ≤ t.depth := by
  obtain ⟨id, leading, markers, name, attributes, content, closing, beforeClose⟩ := t
  cases content with
  | none => exact Nat.le_refl _
  | some items => exact Nat.succ_le_succ (depthAll_items_le (place.enter name) items)

theorem depth_content_le (place : Place) (c : Content) : (w.content place c).depth ≤ c.depth := by
  cases c with
  | tag t => exact w.depth_onTag_le (depth_tag_le place t)
  | charData d => exact Nat.le_refl _
  | comment c => exact Nat.le_refl _
  | instruction i => exact Nat.le_refl _

theorem depthAll_items_le (place : Place) (cs : List Content) :
    Content.depthAll (w.items place cs) ≤ Content.depthAll cs := by
  cases cs with
  | nil => exact Nat.le_refl _
  | cons c cs =>
    have hc := depth_content_le place c
    have hcs := depthAll_items_le place cs
    rw [items, Content.depthAll, Content.depthAll]
    omega

end

theorem normal_declaration (place : Place) {d : Declaration} (h : d.Normal) : (w.declaration place d).Normal := by
  refine ⟨h.leading, fun a ha => ?_, fun a ha => ?_, h.beforeClose⟩
  · obtain ⟨b, hb, rfl⟩ := List.mem_map.1 ha
    exact w.normal_attr place (h.attributes b hb)
  · rw [declaration, List.head?_map] at ha
    obtain ⟨b, hb, rfl⟩ := Option.map_eq_some_iff.1 ha
    rw [leading_attr]
    exact h.first b hb

theorem readable_document {d : Document} (h : d.Readable) : (w.document d).Readable where
  kind := h.kind
  markers := h.markers
  declaration x hx := by
    obtain ⟨y, hy, rfl⟩ := Option.map_eq_some_iff.1 hx
    exact w.normal_declaration _ (h.declaration y hy)
  misc := h.misc
  first hn := h.first (Option.map_eq_none_iff.1 hn)
  elements u hu := by
    obtain ⟨v, hv, -, hk⟩ := w.mem_elements_content (Visitor.placeOf d) (.tag d.root) u hu
    exact hk (h.elements v hv)
  inner u hu := by
    obtain ⟨v, hv, hn, -⟩ := w.mem_elementsBody_onTag (w.mem_elementsBody_tag (Visitor.placeOf d) d.root) u hu
    rw [hn]
    exact h.inner v hv
  noComment := by
    rw [document, name_onTag]
    exact h.noComment
  noDocType := by
    rw [document, name_onTag]
    exact h.noDocType
  depth := Nat.le_trans (w.depth_onTag_le (w.depth_tag_le _ d.root)) h.depth
  epilog := h.epilog
  eof := h.eof

/-- Nothing changes about the element, if nothing changes `inside` it. -/
def SettledOn (place : Place) (t : Tag) (inside : Prop) : Prop :=
  match w.choose place t.name t.value? with
  | .walk => inside
  | .leave => True
  | .set => t.Holds w.value

mutual

/-- Walking through the element finds nothing to do. -/
def Settled (w : Rewriting) (place : Place) : Tag → Prop
  | ⟨_, _, _, name, attributes, content, _, _⟩ =>
    (∀ a ∈ attributes, w.attribute? (place.enter name) a.key a.value = none) ∧
      match content with
      | some items => w.SettledAll (place.enter name) items
      | none => True

def SettledContent (w : Rewriting) (place : Place) : Content → Prop
  | .tag t => w.SettledOn place t (w.Settled place t)
  | .charData _ | .comment _ | .instruction _ => True

def SettledAll (w : Rewriting) (place : Place) : List Content → Prop
  | [] => True
  | c :: cs => w.SettledContent place c ∧ w.SettledAll place cs

end

def SettledDeclaration (place : Place) (d : Declaration) : Prop :=
  ∀ a ∈ d.attributes, w.attribute? place a.key a.value = none

structure SettledDocument (d : Document) : Prop where
  declaration : ∀ x ∈ d.prolog.declaration, w.SettledDeclaration (Visitor.placeOf d) x
  root : w.SettledOn (Visitor.placeOf d) d.root (w.Settled (Visitor.placeOf d) d.root)

theorem settledAttributes_anonymous (place : Place) (as : List Attribute) :
    (∀ a ∈ as.map Attribute.anonymous, w.attribute? place a.key a.value = none) ↔
      ∀ a ∈ as, w.attribute? place a.key a.value = none := by
  rw [List.forall_mem_map]
  rfl

theorem settledOn_anonymous (place : Place) (t : Tag) {p q : Prop} (h : p ↔ q) :
    w.SettledOn place t.anonymous p ↔ w.SettledOn place t q := by
  unfold SettledOn
  rw [t.name_anonymous, t.value?_anonymous]
  cases w.choose place t.name t.value? with
  | walk => exact h
  | leave => exact Iff.rfl
  | set => exact Tag.holds_anonymous

mutual

theorem settled_anonymous (place : Place) (t : Tag) : w.Settled place t.anonymous ↔ w.Settled place t := by
  obtain ⟨id, leading, markers, name, attributes, content, closing, beforeClose⟩ := t
  cases content with
  | none => exact and_congr (w.settledAttributes_anonymous _ attributes) Iff.rfl
  | some items => exact and_congr (w.settledAttributes_anonymous _ attributes) (settledAll_anonymous _ items)

theorem settledContent_anonymous (place : Place) (c : Content) :
    w.SettledContent place c.anonymous ↔ w.SettledContent place c := by
  cases c with
  | tag t => exact w.settledOn_anonymous place t (settled_anonymous place t)
  | charData d => exact Iff.rfl
  | comment c => exact Iff.rfl
  | instruction i => exact Iff.rfl

theorem settledAll_anonymous (place : Place) (cs : List Content) :
    w.SettledAll place (Content.anonymousAll cs) ↔ w.SettledAll place cs := by
  cases cs with
  | nil => exact Iff.rfl
  | cons c cs => exact and_congr (settledContent_anonymous place c) (settledAll_anonymous place cs)

end

theorem settledDocument_anonymous {d : Document} : w.SettledDocument d.anonymous ↔ w.SettledDocument d := by
  have hr := w.settledOn_anonymous (Visitor.placeOf d) d.root (w.settled_anonymous (Visitor.placeOf d) d.root)
  constructor
  · intro h
    refine ⟨fun x hx => ?_, hr.1 h.root⟩
    have hx : x.anonymous ∈ d.anonymous.prolog.declaration := Option.mem_map_of_mem Declaration.anonymous hx
    exact (w.settledAttributes_anonymous _ x.attributes).1 (h.declaration x.anonymous hx)
  · intro h
    refine ⟨fun x hx => ?_, hr.2 h.root⟩
    obtain ⟨y, hy, rfl⟩ := Option.map_eq_some_iff.1 hx
    exact (w.settledAttributes_anonymous _ y.attributes).2 (h.declaration y hy)

theorem settledAttributes_map (place : Place) (as : List Attribute) :
    ∀ a ∈ as.map (w.attr place), w.attribute? place a.key a.value = none := by
  intro a ha
  obtain ⟨b, -, rfl⟩ := List.mem_map.1 ha
  exact w.attribute?_attr place b

/-- If the element is given the value, and again once it is read back, then the value is read back as it is written. -/
def LastsOn (place : Place) (t : Tag) : Prop :=
  w.choose place t.name t.value? = .set → w.choose place t.name (some (Text.trim w.value)) = .set →
    Text.allBlank w.value = false ∧ ∀ c ∈ t.closing, c.leading = ""

theorem lastsOn_anonymous {place : Place} {t : Tag} : w.LastsOn place t.anonymous ↔ w.LastsOn place t := by
  unfold LastsOn
  rw [t.name_anonymous, t.value?_anonymous]
  refine imp_congr_right fun _ => imp_congr_right fun _ => and_congr_right fun _ => ?_
  obtain ⟨id, leading, markers, name, attributes, content, closing, beforeClose⟩ := t
  cases closing with
  | none => exact Iff.rfl
  | some c => exact ⟨fun h _ hc => Option.some.inj hc ▸ h c.anonymous rfl, fun h _ hc => Option.some.inj hc ▸ h c rfl⟩

/-- What was given the value is left as it is or holds it, and a walk keeps names and values. -/
theorem settledOn_onTag {place : Place} {t : Tag} (ht : t.Sound) (lasts : w.LastsOn place t)
    (h : w.Settled place (w.tag place t)) :
    w.SettledOn place (w.onTag place t (w.tag place t)) (w.Settled place (w.onTag place t (w.tag place t))) := by
  unfold SettledOn
  cases hc : w.choose place t.name t.value? with
  | walk =>
    have e : w.onTag place t (w.tag place t) = w.tag place t := by rw [onTag, hc]
    rw [e, name_tag, value?_tag, hc]
    exact h
  | leave =>
    have e : w.onTag place t (w.tag place t) = t := by rw [onTag, hc]
    rw [e, hc]
    trivial
  | set =>
    have e : w.onTag place t (w.tag place t) = t.filled w.value := by rw [onTag, hc]
    rw [e, t.name_filled, ht.value?_filled]
    cases again : w.choose place t.name (some (Text.trim w.value)) with
    | walk => exact (w.choose_value hc again).elim
    | leave => trivial
    | set =>
      obtain ⟨more, behind⟩ := lasts hc again
      exact ht.holds_filled more behind

mutual

theorem settled_tag (place : Place) (t : Tag) (sound : ∀ u ∈ Content.elementsBody t.content, u.Sound)
    (lasts : ∀ x ∈ Content.placedBody (place.enter t.name) t.content, w.LastsOn x.1 x.2) :
    w.Settled place (w.tag place t) := by
  obtain ⟨id, leading, markers, name, attributes, content, closing, beforeClose⟩ := t
  cases content with
  | none => exact ⟨w.settledAttributes_map _ attributes, trivial⟩
  | some items =>
    exact ⟨w.settledAttributes_map _ attributes, settledAll_items (place.enter name) items sound lasts⟩

theorem settledContent_content (place : Place) (c : Content) (sound : ∀ u ∈ c.elements, u.Sound)
    (lasts : ∀ x ∈ c.placed place, w.LastsOn x.1 x.2) : w.SettledContent place (w.content place c) := by
  cases c with
  | tag t =>
    rw [Content.placed, Tag.placed_eq, List.forall_mem_cons] at lasts
    refine w.settledOn_onTag (sound t t.mem_elements_self) lasts.1
      (settled_tag place t (fun u hu => sound u ?_) lasts.2)
    exact Tag.mem_elements_iff.2 (.inr (Content.mem_elementsBody_iff.1 hu))
  | charData d => trivial
  | comment c => trivial
  | instruction i => trivial

theorem settledAll_items (place : Place) (cs : List Content) (sound : ∀ u ∈ Content.elementsAll cs, u.Sound)
    (lasts : ∀ x ∈ Content.placedAll place cs, w.LastsOn x.1 x.2) : w.SettledAll place (w.items place cs) := by
  cases cs with
  | nil => trivial
  | cons c cs =>
    rw [Content.elementsAll, List.forall_mem_append] at sound
    rw [Content.placedAll, List.forall_mem_append] at lasts
    exact ⟨settledContent_content place c sound.1 lasts.1, settledAll_items place cs sound.2 lasts.2⟩

end

theorem settledDocument_document {d : Document} (h : d.Readable) (lasts : ∀ x ∈ d.placed, w.LastsOn x.1 x.2) :
    w.SettledDocument (w.document d) where
  declaration x hx := by
    obtain ⟨y, -, rfl⟩ := Option.map_eq_some_iff.1 hx
    exact w.settledAttributes_map _ y.attributes
  root := w.settledContent_content _ (.tag d.root) h.elements lasts

end Rewriting
end Emend.Recipes
