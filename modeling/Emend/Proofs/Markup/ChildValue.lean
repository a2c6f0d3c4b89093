import Emend.Proofs.Markup.Values

/-! # Children that are given a value

The first child of a name is given the value; the other children are those there were.
-/

namespace Emend

namespace Markup

/-- A value has no white space at its ends. -/
theorem Tag.trim_value? {t : Tag} {value : String} (h : t.value? = some value) : Text.trim value = value := by
  obtain ⟨items, -, h⟩ := Option.bind_eq_some_iff.1 h
  obtain ⟨text, -, h⟩ := Option.bind_eq_some_iff.1 h
  cases h
  exact Text.trim_trim text

theorem value?_withValue (t : Tag) (value : String) (s : Supply) :
    ((t.withValue value).run s).1.value? = some (Text.trim value) := by
  obtain ⟨i, j, h⟩ := run_withValue t value s
  have text := unescape_escapeText_append value (b := "") nofun
  rw [String.append_empty, String.append_empty] at text
  rw [h, Tag.value?_of_content rfl]
  simp [Tag.textOf, CharData.value, text]

theorem name_withValue (t : Tag) (value : String) (s : Supply) : ((t.withValue value).run s).1.name = t.name := by
  obtain ⟨i, j, h⟩ := run_withValue t value s
  rw [h]
  rfl

theorem filterMap_tag?_cons (t : Tag) (cs : List Content) :
    (Content.tag t :: cs).filterMap Content.tag? = t :: cs.filterMap Content.tag? := rfl

section

variable {name value : String} {before after : List Content} {c : Tag}

theorem find?_tags_append (hc : c.name = name) (hb : ∀ u, .tag u ∈ before → u.name ≠ name) :
    ((before ++ .tag c :: after).filterMap Content.tag?).find? (·.name == name) = some c := by
  rw [List.filterMap_append, List.find?_append, List.find?_eq_none.2, Option.none_or,
    filterMap_tag?_cons, List.find?_cons_of_pos (p := fun t : Tag => t.name == name) (beq_iff_eq.2 hc)]
  intro u hu
  obtain ⟨item, hitem, hu⟩ := List.mem_filterMap.1 hu
  cases item with
  | tag t =>
    cases hu
    exact mt beq_iff_eq.1 (hb u hitem)
  | charData _ | comment _ | instruction _ => cases hu

/-- An element that is not called so may stand for any other such element. -/
theorem find?_tags_append_of_ne {d : Tag} (hc : c.name ≠ name) (hd : d.name ≠ name) :
    ((before ++ .tag c :: after).filterMap Content.tag?).find? (·.name == name) =
      ((before ++ .tag d :: after).filterMap Content.tag?).find? (·.name == name) := by
  rw [List.filterMap_append, List.filterMap_append, filterMap_tag?_cons,
    filterMap_tag?_cons, List.find?_append, List.find?_append,
    List.find?_cons_of_neg (p := fun t : Tag => t.name == name) (mt beq_iff_eq.1 hc),
    List.find?_cons_of_neg (p := fun t : Tag => t.name == name) (mt beq_iff_eq.1 hd)]

theorem exists_append_of_find?_tags {items : List Content}
    (h : (items.filterMap Content.tag?).find? (·.name == name) = some c) :
    ∃ before after, items = before ++ .tag c :: after ∧ c.name = name ∧ ∀ u, .tag u ∈ before → u.name ≠ name := by
  induction items with
  | nil => cases h
  | cons item items ih =>
    -- an item that is not the one in question goes to those in front of it
    have skip (other : ∀ u, item = .tag u → u.name ≠ name)
        (h : (items.filterMap Content.tag?).find? (·.name == name) = some c) :
        ∃ before after, item :: items = before ++ .tag c :: after ∧ c.name = name ∧
          ∀ u, .tag u ∈ before → u.name ≠ name := by
      obtain ⟨before, after, split, hc, hb⟩ := ih h
      refine ⟨item :: before, after, by rw [split, List.cons_append], hc, fun u hu => ?_⟩
      obtain hu | hu := List.mem_cons.1 hu
      · exact other u hu.symm
      · exact hb u hu
    cases item with
    | tag t =>
      rw [filterMap_tag?_cons, List.find?_cons] at h
      split at h
      next found =>
        cases h
        exact ⟨[], items, rfl, eq_of_beq found, nofun⟩
      next missed => exact skip (by rintro _ ⟨⟩; exact ne_of_beq_false missed) h
    | charData _ | comment _ | instruction _ => exact skip nofun h

theorem run_withChildValue?_go (hc : c.name = name) (hb : ∀ u, .tag u ∈ before → u.name ≠ name) (s : Supply) :
    (Tag.withChildValue?.go name value (before ++ .tag c :: after)).run s =
      (some (before ++ .tag ((c.withValue value).run s).1 :: after), ((c.withValue value).run s).2) := by
  induction before with
  | nil =>
    rw [List.nil_append, Tag.withChildValue?.go, if_pos hc]
    rfl
  | cons item before ih =>
    have rest := ih fun u hu => hb u (List.mem_cons_of_mem _ hu)
    cases item with
    | tag t =>
      rw [List.cons_append, Tag.withChildValue?.go, if_neg (hb t List.mem_cons_self), StateT.run_bind, rest]
      rfl
    | charData _ | comment _ | instruction _ =>
      rw [List.cons_append, Tag.withChildValue?.go, StateT.run_bind, rest]
      · rfl
      · nofun

end

theorem Tag.withBody_childValue? (t : Tag) (items : List Content) (c : Closing) (name : String) :
    (t.withBody items c).childValue? name =
      ((items.filterMap Content.tag?).find? (·.name == name)).bind Tag.value? := rfl

/-- What becomes of an element whose first child called `child` is given the value. -/
structure Tag.GivenChild (child value : String) (t u : Tag) : Prop where
  name : u.name = t.name
  given : u.childValue? child = some (Text.trim value)
  others : ∀ other, other ≠ child → u.childValue? other = t.childValue? other
  again : ∀ s, ((u.withChildValue? child value).run s).1 = some u

theorem Tag.givenChild_withChildValue? {t c : Tag} {name : String} (h : t.child? name = some c) (value : String)
    (s : Supply) : ∃ u, ((t.withChildValue? name value).run s).1 = some u ∧ Tag.GivenChild name value t u := by
  obtain ⟨before, after, split, hc, hb⟩ := exists_append_of_find?_tags h
  obtain ⟨items, hitems, same⟩ : ∃ items, t.content = some items ∧ t.items = items := by
    cases content : t.content with
    | none =>
      rw [Tag.items, content] at split
      exact absurd split.symm (List.append_ne_nil_of_right_ne_nil _ (List.cons_ne_nil _ _))
    | some items => exact ⟨items, rfl, by rw [Tag.items, content]; rfl⟩
  rw [same] at split
  let d := ((c.withValue value).run s).1
  have hd : d.name = name := (name_withValue c value s).trans hc
  obtain ⟨j, changed⟩ := run_withContent t (before ++ .tag d :: after) ((c.withValue value).run s).2
  have run : ((t.withChildValue? name value).run s).1 =
      some (t.withBody (before ++ .tag d :: after) { t.closingOrNew with id := j }) := by
    rw [← changed, Tag.withChildValue?, hitems, split]
    dsimp only
    rw [StateT.run_bind, run_withChildValue?_go hc hb]
    rfl
  refine ⟨_, run, rfl, ?_, fun other hne => ?_, fun s' => ?_⟩
  · rw [Tag.withBody_childValue?, find?_tags_append hd hb]
    exact value?_withValue c value s
  · have rest : t.childValue? other = ((items.filterMap Content.tag?).find? (·.name == other)).bind Tag.value? := by
      rw [← same]
      rfl
    rw [Tag.withBody_childValue?, rest, split, find?_tags_append_of_ne (hd ▸ hne.symm) (hc ▸ hne.symm)]
  · change (((Tag.withChildValue?.go name value (before ++ .tag d :: after)) >>= _).run s').1 = _
    rw [StateT.run_bind, run_withChildValue?_go hd hb, run_withValue_again]
    rfl

end Markup
end Emend
