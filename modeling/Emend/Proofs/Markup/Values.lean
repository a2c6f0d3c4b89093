import Emend.Markup.Edit
import Emend.Proofs.Markup.Anonymous
import Emend.Proofs.Markup.Escaping
import Emend.Proofs.Markup.Normal
import Emend.Proofs.Markup.PrintedText

/-! # Elements that are given a value

An element with a new value is not the tree that its text is read as: blanks alone are read as blanks in front
of the closing tag, and blanks there belong to the text before them. `Tag.filled` is that tree. It has the value,
without blanks at its ends.
-/

namespace Emend.Markup

def Tag.withBody (t : Tag) (items : List Content) (c : Closing) : Tag :=
  { t with content := some items, closing := some c }

def Tag.runLeading (t : Tag) : String :=
  match t.content with
  | some [.charData d] => if d.cdata then "" else d.leading
  | _ => ""

def Tag.closingOrNew (t : Tag) : Closing :=
  t.closing.getD { id := .none, leading := "", name := t.name, beforeClose := "" }

/-- What an element that is given `value` is read as, once it is printed. -/
def Tag.filled (t : Tag) (value : String) : Tag :=
  let closing := t.closingOrNew
  let text := t.runLeading ++ escapeText value ++ closing.leading
  if Text.allBlank text then t.withBody [] { closing with leading := text }
  else t.withBody [.charData { id := .none, leading := "", cdata := false, text }] { closing with leading := "" }

theorem run_withContent (t : Tag) (items : List Content) (s : Supply) :
    ∃ j, ((t.withContent items).run s).1 = t.withBody items { t.closingOrNew with id := j } := by
  obtain ⟨id, leading, markers, name, attributes, content, closing, beforeClose⟩ := t
  cases closing <;> exact ⟨_, rfl⟩

theorem run_withValue (t : Tag) (value : String) (s : Supply) :
    ∃ i j, ((t.withValue value).run s).1 = t.withBody
      [.charData { id := i, leading := t.runLeading, cdata := false, text := escapeText value }]
      { t.closingOrNew with id := j } := by
  -- a run of text that is made anew has nothing in front of it
  have new (h : t.runLeading = "") : ∃ i j,
      ((do t.withContent [.charData (← Tag.withValue.newRun (escapeText value))] : Fresh Tag).run s).1 = t.withBody
        [.charData { id := i, leading := t.runLeading, cdata := false, text := escapeText value }]
        { t.closingOrNew with id := j } := by
    rw [h]
    exact ⟨⟨s.next⟩, run_withContent t _ ⟨s.next + 1⟩⟩
  unfold Tag.withValue
  split
  next d hd =>
    by_cases hc : d.cdata = true
    · rw [if_pos hc]
      exact new (by simp [Tag.runLeading, hd, hc])
    · have hl : t.runLeading = d.leading := by simp [Tag.runLeading, hd, hc]
      rw [if_neg hc, hl]
      obtain ⟨id, leading, cdata, text⟩ := d
      obtain rfl : cdata = false := Bool.eq_false_iff.2 hc
      exact ⟨id, run_withContent t _ s⟩
  next hd =>
    refine new ?_
    unfold Tag.runLeading
    split
    next d he => exact absurd he (hd d)
    rfl

theorem run_withValue_again (t : Tag) (value : String) (s s' : Supply) :
    (((t.withValue value).run s).1.withValue value).run s' = (((t.withValue value).run s).1, s') := by
  obtain ⟨i, j, h⟩ := run_withValue t value s
  rw [h]
  rfl

/-- The element holds just the text that stands for `value`. -/
def Tag.Holds (t : Tag) (value : String) : Prop :=
  t.closing.isSome = true ∧ ∃ d : CharData, t.content = some [.charData d] ∧ d.cdata = false ∧ d.text = escapeText value

theorem Tag.Holds.run_withValue {t : Tag} {value : String} (h : t.Holds value) (s : Supply) :
    (t.withValue value).run s = (t, s) := by
  obtain ⟨id, leading, markers, name, attributes, content, closing, beforeClose⟩ := t
  obtain ⟨closed, d, hc, run, text⟩ := h
  obtain ⟨c, rfl⟩ := Option.isSome_iff_exists.1 closed
  obtain rfl : content = some [.charData d] := hc
  obtain ⟨id, leading, cdata, text⟩ := d
  subst run text
  rfl

theorem Tag.toList_print_withBody (t : Tag) (items : List Content) (c : Closing) :
    (t.withBody items c).print.toList = startText t.leading t.name t.attributes t.beforeClose ++
      '>' :: ((Content.printAll items).toList ++ c.print.toList) :=
  Tag.toList_print_body t.id t.leading t.markers t.name t.attributes items c t.beforeClose

/-- The text of the element is that of the tree it is read as. -/
theorem print_withValue (t : Tag) (value : String) (s : Supply) :
    ((t.withValue value).run s).1.print = (t.filled value).print := by
  obtain ⟨i, j, h⟩ := run_withValue t value s
  apply String.toList_injective
  rw [h, Tag.toList_print_withBody, Tag.filled]
  dsimp only
  split
  · rw [Tag.toList_print_withBody]
    simp [Content.printAll, Content.print, CharData.print, Closing.print]
  · rw [Tag.toList_print_withBody]
    simp [Content.printAll, Content.print, CharData.print, Closing.print]

theorem textOf_anonymousAll (items : List Content) : Tag.textOf (Content.anonymousAll items) = Tag.textOf items := by
  induction items with
  | nil => rfl
  | cons c cs ih =>
    cases c with
    | charData d =>
      rw [Content.anonymousAll, Content.anonymous, Tag.textOf, Tag.textOf, ih]
      rfl
    | _ => rfl

theorem Tag.value?_of_content {t : Tag} {items : List Content} (h : t.content = some items) :
    t.value? = (Tag.textOf items).map Text.trim := by
  rw [Tag.value?, h]
  cases ht : Tag.textOf items <;> simp [ht]

theorem Tag.value?_anonymous (t : Tag) : t.anonymous.value? = t.value? := by
  obtain ⟨id, leading, markers, name, attributes, content, closing, beforeClose⟩ := t
  cases content with
  | none => rfl
  | some items => rw [Tag.value?_of_content rfl, Tag.value?_of_content rfl, textOf_anonymousAll]

theorem Tag.name_anonymous (t : Tag) : t.anonymous.name = t.name := by
  cases t
  rfl

theorem Tag.withBody_anonymous (t : Tag) (items : List Content) (c : Closing) :
    (t.withBody items c).anonymous = t.anonymous.withBody (Content.anonymousAll items) c.anonymous := by
  cases t
  rfl

theorem Tag.closingOrNew_anonymous (t : Tag) : t.anonymous.closingOrNew = t.closingOrNew.anonymous := by
  obtain ⟨id, leading, markers, name, attributes, content, closing, beforeClose⟩ := t
  cases closing <;> rfl

theorem Tag.runLeading_anonymous (t : Tag) : t.anonymous.runLeading = t.runLeading := by
  obtain ⟨id, leading, markers, name, attributes, content, closing, beforeClose⟩ := t
  cases content with
  | none => rfl
  | some items =>
    cases items with
    | nil => rfl
    | cons c cs =>
      cases cs with
      | nil => cases c <;> rfl
      | cons d ds => cases c <;> rfl

theorem Tag.holds_anonymous {t : Tag} {value : String} : t.anonymous.Holds value ↔ t.Holds value := by
  obtain ⟨id, leading, markers, name, attributes, content, closing, beforeClose⟩ := t
  refine and_congr (by cases closing <;> exact Iff.rfl) ?_
  constructor
  · rintro ⟨d, hc, run, text⟩
    match content, hc with
    | some [.charData e], hc =>
      cases hc
      exact ⟨e, rfl, run, text⟩
  · rintro ⟨d, hc, run, text⟩
    cases hc
    exact ⟨d.anonymous, rfl, run, text⟩

theorem Tag.filled_anonymous (t : Tag) (value : String) : (t.filled value).anonymous = t.anonymous.filled value := by
  unfold Tag.filled
  rw [Tag.closingOrNew_anonymous, Tag.runLeading_anonymous]
  dsimp only
  rw [apply_ite Tag.anonymous, Tag.withBody_anonymous, Tag.withBody_anonymous]
  rfl

theorem Attribute.Normal.withValue {a : Attribute} (h : a.Normal) (value : String) : (a.withValue value).Normal := by
  obtain ⟨markup, quote⟩ := not_mem_escapeAttribute a.quote value
  exact ⟨h.leading, h.markers, h.key, h.beforeEquals, h.afterEquals, quote, markup⟩

section

variable {t : Tag} (h : t.Sound)

include h

theorem Tag.Sound.closingOrNew : t.closingOrNew.Normal t.name := by
  obtain ⟨id, leading, markers, name, attributes, content, closing, beforeClose⟩ := t
  have hb := h.body
  cases closing with
  | none => exact ⟨rfl, rfl, rfl⟩
  | some c =>
    cases content with
    | none => exact hb.elim
    | some items => exact hb.2.2

theorem Tag.Sound.runLeading : t.runLeading = "" := by
  obtain ⟨id, leading, markers, name, attributes, content, closing, beforeClose⟩ := t
  have hb := h.body
  unfold Tag.runLeading
  split
  next d hd =>
    obtain rfl : content = some [.charData d] := hd
    split
    · rfl
    next hc =>
      cases closing with
      | none => exact hb.elim
      | some c =>
        have hl := hb.1 (.charData d) List.mem_cons_self
        rw [Content.NormalLeaf, if_neg hc] at hl
        exact hl.leading
  · rfl

theorem Tag.Sound.filled (value : String) : (t.filled value).Sound := by
  obtain ⟨hl, hn, hb⟩ := h.closingOrNew
  unfold Tag.filled
  rw [h.runLeading, String.empty_append]
  dsimp only
  split
  -- with blanks alone there is no content, and they stand in front of the closing tag
  next hblank =>
    refine ⟨h.leading, h.markers, h.name, h.attributes, h.beforeClose, ?_, trivial, hblank, hn, hb⟩
    intro c hc
    cases hc
  next hblank =>
    refine ⟨h.leading, h.markers, h.name, h.attributes, h.beforeClose, ?_, fun _ => rfl, rfl, hn, hb⟩
    intro c hc
    obtain rfl := List.mem_singleton.1 hc
    refine ⟨rfl, Bool.eq_false_iff.2 hblank, ?_⟩
    rw [String.toList_append, List.mem_append, not_or]
    exact ⟨not_mem_escapeText value, Text.not_mem_of_allBlank hl rfl⟩

/-- A value that is more than blanks is read back as it is written, unless there are blanks behind it. -/
theorem Tag.Sound.holds_filled {value : String} (more : Text.allBlank value = false)
    (behind : ∀ c ∈ t.closing, c.leading = "") : (t.filled value).Holds value := by
  have close : t.closingOrNew.leading = "" := by
    unfold Tag.closingOrNew
    cases e : t.closing with
    | none => rfl
    | some c => exact behind c e
  unfold Tag.filled
  rw [h.runLeading, String.empty_append]
  dsimp only
  rw [close, String.append_empty, allBlank_escapeText, if_neg (Bool.eq_false_iff.1 more)]
  exact ⟨rfl, _, rfl, rfl, rfl⟩

theorem Tag.Sound.value?_filled (value : String) : (t.filled value).value? = some (Text.trim value) := by
  obtain ⟨hl, -, -⟩ := h.closingOrNew
  unfold Tag.filled
  rw [h.runLeading, String.empty_append]
  dsimp only
  split
  next hblank =>
    have hv : Text.allBlank value = true := by
      rw [← allBlank_escapeText]
      rw [Text.allBlank, String.toList_append, List.all_append, Bool.and_eq_true] at hblank
      exact hblank.1
    rw [Text.trim_of_allBlank hv]
    rfl
  -- the blanks in front of the closing tag are now part of the text, and trimmed with it
  next =>
    have ha : '&' ∉ t.closingOrNew.leading.toList := Text.not_mem_of_allBlank hl rfl
    rw [← Text.trim_append value hl, ← unescape_escapeText_append value ha, Tag.value?_of_content rfl]
    simp [Tag.textOf, CharData.value]

end

theorem Tag.filled_eq_withBody (t : Tag) (value : String) :
    ∃ items c, t.filled value = t.withBody items c ∧ Content.elementsAll items = [] ∧ Content.depthAll items = 0 := by
  unfold Tag.filled
  dsimp only
  split
  · exact ⟨[], _, rfl, rfl, rfl⟩
  · exact ⟨[.charData _], _, rfl, rfl, rfl⟩

theorem Tag.name_filled (t : Tag) (value : String) : (t.filled value).name = t.name := by
  obtain ⟨items, c, h, -⟩ := t.filled_eq_withBody value
  rw [h]
  rfl

theorem Tag.leading_filled (t : Tag) (value : String) : (t.filled value).leading = t.leading := by
  obtain ⟨items, c, h, -⟩ := t.filled_eq_withBody value
  rw [h]
  rfl

theorem Tag.elementsBody_filled (t : Tag) (value : String) :
    Content.elementsBody (t.filled value).content = [] := by
  obtain ⟨items, c, h, he, -⟩ := t.filled_eq_withBody value
  rw [h]
  exact he

theorem Tag.depth_filled_le (t : Tag) (value : String) : (t.filled value).depth ≤ t.depth := by
  obtain ⟨items, c, h, -, hd⟩ := t.filled_eq_withBody value
  have hf : (t.withBody items c).depth = 1 := by
    rw [Tag.withBody, Tag.depth, Content.depthBody, hd]
  rw [h, hf]
  exact t.depth_pos

end Emend.Markup
