import Emend.Proofs.Markup.Containment
import Emend.Proofs.Markup.Parsed
import Emend.Proofs.Markup.Vetting
import Mathlib.Data.List.Flatten

/-! # Values of character data

Between its tags an element may hold runs of text and `CDATA` sections only. A reader takes a blank run for what stands
in front of the next section or of the closing tag, so that the value is that of the other pieces. Trimming takes blank
runs at the ends away in any case; one between two pieces of text is missing from the value.
-/

namespace Emend.Markup

/-- A run of raw text, or what a `CDATA` section holds. -/
inductive Piece where
  | run (text : String)
  | cdata (text : String)
deriving DecidableEq

namespace Piece

def print : Piece → String
  | run text => text
  | cdata text => "<![CDATA[" ++ text ++ "]]>"

/-- The characters that the piece stands for. -/
def value : Piece → String
  | run text => unescape text
  | cdata text => text

def isRun : Piece → Bool
  | run _ => true
  | cdata _ => false

/-- A run holds something and no bracket, a section does not hold its end. -/
def WellFormed : Piece → Prop
  | run text => text ≠ "" ∧ '<' ∉ text.toList
  | cdata text => Text.contains [']', ']', '>'] text.toList = false

instance : (p : Piece) → Decidable p.WellFormed
  | run text => inferInstanceAs (Decidable (text ≠ "" ∧ '<' ∉ text.toList))
  | cdata text => inferInstanceAs (Decidable (Text.contains [']', ']', '>'] text.toList = false))

/-- Trimming may take all of the piece. -/
def White (p : Piece) : Prop := ∀ c ∈ p.value.toList, Text.isWhiteSpace c = true

instance (p : Piece) : Decidable p.White := List.decidableBAll (fun c => Text.isWhiteSpace c = true) p.value.toList

def shows : Piece → Bool
  | run text => !Text.allBlank text
  | cdata _ => true

def item : Piece → Content
  | run text => .charData ⟨.none, "", false, text⟩
  | cdata text => .charData ⟨.none, "", true, text⟩

end Piece

def printPieces (ps : List Piece) : String := String.join (ps.map Piece.print)

def valueOf (ps : List Piece) : String := String.join (ps.map Piece.value)

/-- The text consists of the pieces, and the runs among them are maximal. -/
@[mk_iff] structure Splits (text : String) (ps : List Piece) : Prop where
  print : printPieces ps = text
  wellFormed : ∀ p ∈ ps, p.WellFormed
  maximal : ps.IsChain fun p q => p.isRun = true → q.isRun = false

instance (text : String) (ps : List Piece) : Decidable (Splits text ps) := decidable_of_iff _ (splits_iff text ps).symm

def Tag.inside? (t : Tag) : Option String := do
  let items ← t.content
  let closing ← t.closing
  return Content.printAll items ++ closing.leading

theorem toList_valueOf (ps : List Piece) : (valueOf ps).toList = ps.flatMap (·.value.toList) := by
  rw [valueOf, String.toList_join, List.flatMap_map]

theorem Piece.value_of_not_shows {p : Piece} (h : p.shows = false) : ∃ text, p = .run text ∧
    Text.allBlank text = true ∧ p.value = text := by
  cases p with
  | cdata text => cases h
  | run text =>
    have blank : Text.allBlank text = true := by simpa [Piece.shows] using h
    refine ⟨text, rfl, blank, ?_⟩
    apply String.toList_injective
    rw [Piece.value, unescape, String.toList_ofList, unescapeChars_eq_self (Text.not_mem_of_allBlank blank rfl)]

theorem Piece.white_of_not_shows {p : Piece} (h : p.shows = false) : p.White := by
  obtain ⟨text, rfl, blank, same⟩ := Piece.value_of_not_shows h
  intro c hc
  rw [same] at hc
  exact Text.isWhiteSpace_of_isBlank (Text.allBlank_iff.1 blank c hc)

theorem Piece.WellFormed.value_ne {p : Piece} (h : p.WellFormed) (hidden : p.shows = false) : p.value ≠ "" := by
  obtain ⟨text, rfl, -, same⟩ := Piece.value_of_not_shows hidden
  rw [same]
  exact h.1

/-- Everything that does not show stands next to white space only, on one side or the other. -/
def AtEnds (ps : List Piece) : Prop :=
  ∀ before p behind, ps = before ++ p :: behind → p.shows = false → (∀ q ∈ before, q.White) ∨ ∀ q ∈ behind, q.White

theorem atEnds_iff {ps : List Piece} : AtEnds ps ↔ ∀ i : Fin ps.length, ps[i].shows = false →
    (∀ q ∈ ps.take i, q.White) ∨ ∀ q ∈ ps.drop (i + 1), q.White := by
  constructor
  · intro h i hidden
    refine h (ps.take i) ps[i] (ps.drop (i + 1)) ?_ hidden
    simp
  · rintro h before p behind rfl hidden
    have here := h ⟨before.length, by simp⟩
    simp [hidden] at here
    exact here

instance (ps : List Piece) : Decidable (AtEnds ps) := decidable_of_iff _ atEnds_iff.symm

/-- From the right: white pieces at the end go, and then everything shows. -/
theorem trim_shown_of_behind (as : List Char) {ps : List Piece}
    (h : ∀ before p behind, ps = before ++ p :: behind → p.shows = false → ∀ q ∈ behind, q.White) :
    Text.trimChars (as ++ (ps.filter Piece.shows).flatMap (·.value.toList)) =
      Text.trimChars (as ++ ps.flatMap (·.value.toList)) := by
  induction ps using List.reverseRecOn with
  | nil => rfl
  | append_singleton ps p ih =>
    by_cases hp : p.White
    · have rest := ih fun before q behind e hq r hr =>
        h before q (behind ++ [p]) (by rw [e, List.append_assoc, List.cons_append]) hq r (List.mem_append_left _ hr)
      have last : ∀ c ∈ ([p].filter Piece.shows).flatMap (·.value.toList), Text.isWhiteSpace c = true := by
        intro c hc
        obtain ⟨q, hq, hv⟩ := List.mem_flatMap.1 hc
        obtain rfl := List.mem_singleton.1 (List.mem_of_mem_filter hq)
        exact hp c hv
      have whole : ∀ c ∈ [p].flatMap (·.value.toList), Text.isWhiteSpace c = true := by
        simpa [Piece.White] using hp
      rw [List.filter_append, List.flatMap_append, List.flatMap_append, ← List.append_assoc, ← List.append_assoc,
        Text.trimChars_append last, rest, Text.trimChars_append whole]
    -- with text at the end, nothing in front of it can be hidden
    · have all : (ps ++ [p]).filter Piece.shows = ps ++ [p] := by
        rw [List.filter_eq_self]
        intro q hq
        rw [← Bool.not_eq_false]
        intro hidden
        rcases List.mem_append.1 hq with hq | hq
        · obtain ⟨before, behind, rfl⟩ := List.append_of_mem hq
          exact hp (h before q (behind ++ [p]) (by simp) hidden p (by simp))
        · obtain rfl := List.mem_singleton.1 hq
          exact hp (Piece.white_of_not_shows hidden)
      rw [all]

/-- From the left: white pieces in front go, and what does not show behind the first other one stands at the end. -/
theorem trim_shown_of_atEnds {ps : List Piece} (h : AtEnds ps) :
    Text.trimChars ((ps.filter Piece.shows).flatMap (·.value.toList)) =
      Text.trimChars (ps.flatMap (·.value.toList)) := by
  induction ps with
  | nil => rfl
  | cons p ps ih =>
    by_cases hp : p.White
    · have rest := ih fun before q behind e hq => by
        rcases h (p :: before) q behind (by rw [e, List.cons_append]) hq with hw | hw
        · exact .inl fun r hr => hw r (List.mem_cons_of_mem p hr)
        · exact .inr hw
      rw [List.flatMap_cons, Text.trimChars_append_left hp, ← rest, List.filter_cons]
      split
      · rw [List.flatMap_cons, Text.trimChars_append_left hp]
      · rfl
    -- the first text: what is hidden behind it has white pieces behind itself
    · have shown : p.shows = true := by
        rw [← Bool.not_eq_false]
        exact fun hidden => hp (Piece.white_of_not_shows hidden)
      rw [List.filter_cons_of_pos shown, List.flatMap_cons, List.flatMap_cons]
      refine trim_shown_of_behind _ fun before q behind e hq => ?_
      refine (h (p :: before) q behind (by rw [e, List.cons_append]) hq).resolve_left fun hw => ?_
      exact hp (hw p List.mem_cons_self)

theorem white_iff_flatMap {ps : List Piece} :
    (∀ p ∈ ps, p.White) ↔ ∀ c ∈ ps.flatMap (·.value.toList), Text.isWhiteSpace c = true := by
  constructor
  · intro h c hc
    obtain ⟨p, hp, hc⟩ := List.mem_flatMap.1 hc
    exact h p hp c hc
  · intro h p hp c hc
    exact h c (List.mem_flatMap.2 ⟨p, hp, hc⟩)

theorem white_filter_iff {ps : List Piece} : (∀ p ∈ ps.filter Piece.shows, p.White) ↔ ∀ p ∈ ps, p.White := by
  constructor
  · intro h p hp
    cases hs : p.shows with
    | false => exact Piece.white_of_not_shows hs
    | true => exact h p (List.mem_filter.2 ⟨hp, hs⟩)
  · intro h p hp
    exact h p (List.mem_of_mem_filter hp)

/-- What does not show between two texts is missing. -/
theorem trim_shown_ne {before behind : List Piece} {p : Piece} (hp : p.shows = false) (nonempty : p.value ≠ "")
    (hb : ¬∀ q ∈ before, q.White) (ha : ¬∀ q ∈ behind, q.White) :
    Text.trimChars (((before ++ p :: behind).filter Piece.shows).flatMap (·.value.toList)) ≠
      Text.trimChars ((before ++ p :: behind).flatMap (·.value.toList)) := by
  have hb' := mt white_filter_iff.1 hb
  have ha' := mt white_filter_iff.1 ha
  rw [white_iff_flatMap] at hb ha hb' ha'
  have shown : ((before ++ p :: behind).filter Piece.shows).flatMap (·.value.toList) =
      (before.filter Piece.shows).flatMap (·.value.toList) ++
        ([] ++ (behind.filter Piece.shows).flatMap (·.value.toList)) := by
    simp [hp]
  rw [shown, Text.trimChars_append_append hb' ha', List.flatMap_append, List.flatMap_cons,
    Text.trimChars_append_append hb ha]
  intro e
  -- what is left of both ends is no longer on the left side, and `p` stands on the right side only
  have lengths := congrArg List.length e
  simp only [List.length_append, List.length_reverse, List.length_nil] at lengths
  have front := (Text.sublist_dropWhile (p := Text.isWhiteSpace)
    ((List.filter_sublist (p := Piece.shows) (l := before)).flatMap (·.value.toList))).length_le
  have back := (Text.sublist_dropWhile (p := Text.isWhiteSpace)
    ((List.filter_sublist (p := Piece.shows) (l := behind)).flatMap (·.value.toList)).reverse).length_le
  have here : 0 < p.value.toList.length := List.length_pos_iff.2 (mt String.toList_eq_nil_iff.1 nonempty)
  omega

theorem printAll_map_item (ps : List Piece) : Content.printAll (ps.map Piece.item) = printPieces ps := by
  apply String.toList_injective
  rw [Content.toList_printAll, printPieces, String.toList_join, List.flatMap_map, List.flatMap_map]
  congr
  funext p
  cases p <;> simp [Piece.item, Piece.print, Content.print, CharData.print]

theorem Piece.WellFormed.contained {p : Piece} (h : p.WellFormed) : p.item.Contained := by
  cases p with
  | run text => exact ⟨h.2, rfl, rfl⟩
  | cdata text => exact ⟨h, rfl, rfl⟩

theorem textOf_append {cs ds : List Content} {s t : String} (hs : Tag.textOf cs = some s)
    (ht : Tag.textOf ds = some t) :
    Tag.textOf (cs ++ ds) = some (s ++ t) := by
  induction cs generalizing s with
  | nil =>
    cases hs
    rw [List.nil_append, ht, String.empty_append]
  | cons c cs ih =>
    cases c with
    | charData d =>
      rw [Tag.textOf] at hs
      obtain ⟨r, hr, rfl⟩ := Option.map_eq_some_iff.1 hs
      rw [List.cons_append, Tag.textOf, ih hr, Option.map_some, String.append_assoc]
    | tag _ | comment _ | instruction _ => cases hs

/-- What is pending shows as a run does. -/
def shownRun (text : String) : String := if Text.allBlank text then "" else unescape text

theorem textOf_textRun (text : String) : Tag.textOf (textRun text) = some (shownRun text) := by
  unfold textRun shownRun
  split
  · rfl
  · simp [Tag.textOf, CharData.value]

theorem valueOf_cons (p : Piece) (ps : List Piece) : valueOf (p :: ps) = p.value ++ valueOf ps := by
  apply String.toList_injective
  rw [String.toList_append, toList_valueOf, toList_valueOf, List.flatMap_cons]

/-- The run that is pending ends where the next piece begins. -/
theorem textOf_tidiedAll {ps : List Piece} (h : ps.IsChain fun p q => p.isRun = true → q.isRun = false)
    {pending : String}
    (hp : pending = "" ∨ ∀ p ∈ ps.head?, p.isRun = false) :
    Tag.textOf (Content.tidiedAll pending "" (ps.map Piece.item)) =
      some (shownRun pending ++ valueOf (ps.filter Piece.shows)) := by
  induction ps generalizing pending with
  | nil =>
    rw [List.map_nil, Content.tidiedAll, String.append_empty, textOf_textRun, List.filter_nil]
    exact congrArg some String.append_empty.symm
  | cons p ps ih =>
    have tail := h.tail
    cases p with
    | run text =>
      obtain rfl : pending = "" := hp.resolve_right fun hr => by simp [Piece.isRun] at hr
      have next : ∀ q ∈ ps.head?, q.isRun = false := by
        cases ps with
        | nil => nofun
        | cons q ps =>
          rintro _ ⟨⟩
          exact (List.isChain_cons_cons.1 h).1 rfl
      have isText : (Piece.run text).item.isText = true := rfl
      have printed : "" ++ (Piece.run text).item.print = text := by
        simp [Piece.item, Content.print, CharData.print]
      rw [List.map_cons, Content.tidiedAll, if_pos isText, printed, ih tail (.inr next)]
      by_cases blank : Text.allBlank text = true
      · simp [shownRun, Piece.shows, blank, show Text.allBlank "" = true from rfl]
      · simp [shownRun, Piece.shows, blank, show Text.allBlank "" = true from rfl, valueOf_cons, Piece.value]
    | cdata text =>
      -- the section takes what is pending as its prefix if that is blank
      have isText : ¬(Piece.cdata text).item.isText = true := by simp [Piece.item, Content.isText]
      have leading : pending ++ (Piece.cdata text).item.leading = pending := String.append_empty
      have rest : Tag.textOf ((Piece.cdata text).item.tidied (lead pending) ::
          Content.tidiedAll "" "" (ps.map Piece.item)) = some (text ++ valueOf (ps.filter Piece.shows)) := by
        change Tag.textOf (.charData _ :: _) = _
        have nothing : shownRun "" = "" := if_pos rfl
        rw [Tag.textOf, ih tail (.inl rfl), Option.map_some, nothing, String.empty_append]
        rfl
      rw [List.map_cons, Content.tidiedAll, if_neg isText, leading, textOf_append (textOf_textRun pending) rest,
        List.filter_cons_of_pos rfl, valueOf_cons]
      rfl

theorem Tag.blanksOf_print {t : Tag} (h : Text.allBlank t.leading = true) :
    blanksOf t.print.toList = t.leading.toList := by
  obtain ⟨s, hs⟩ := t.exists_bracket
  rw [hs]
  exact blanksOf_append h (isBlank_head_of_bracket rfl)

/-- Two elements that a reader may find print alike only if they are alike. -/
theorem Tag.anonymous_eq_of_print {t u : Tag} (ht : t.Sound) (hu : u.Sound)
    (inner : ∀ v ∈ Content.elementsBody t.content, v.Normal) (inner' : ∀ v ∈ Content.elementsBody u.content, v.Normal)
    (depth : t.depth ≤ maxDepth) (depth' : u.depth ≤ maxDepth) (h : t.print = u.print) : t.anonymous = u.anonymous := by
  obtain ⟨selfClosing, r, text, read⟩ := t.readRoot_print ht inner depth []
  obtain ⟨selfClosing', r', text', read'⟩ := u.readRoot_print hu inner' depth' []
  have leading : t.leading = u.leading := by
    apply String.toList_injective
    rw [← t.blanksOf_print ht.leading, ← u.blanksOf_print hu.leading, h]
  rw [h, text', leading] at text
  rw [← List.append_cancel_left text, leading, read'] at read
  exact (congrArg Prod.fst (Except.ok.inj read)).symm

/-- The element with the pieces as its content. -/
def Tag.around (t : Tag) (ps : List Piece) : Tag :=
  { t with
    content := some (Content.tidiedAll "" "" (ps.map Piece.item))
    closing := t.closing.map fun c => { c with leading := lead (trailing "" "" (ps.map Piece.item)) } }

theorem Tag.print_eq_of_inside {t : Tag} {text : String} (h : t.inside? = some text) : ∃ c ∈ t.closing,
    t.print = t.leading ++ "<" ++ t.name ++ printAttributes t.attributes ++ t.beforeClose ++ ">" ++ text ++
      "</" ++ c.name ++ c.beforeClose ++ ">" := by
  obtain ⟨id, leading, markers, name, attributes, content, closing, beforeClose⟩ := t
  match content, closing with
  | some items, some c =>
    obtain rfl : Content.printAll items ++ c.leading = text := Option.some.inj h
    refine ⟨c, rfl, ?_⟩
    simp only [Tag.print, Closing.print, String.append_assoc]
  | some _, none | none, some _ | none, none => cases h

theorem Tag.inside?_around {t : Tag} {text : String} (h : t.inside? = some text) (ps : List Piece) :
    (t.around ps).inside? = some (printPieces ps) := by
  obtain ⟨id, leading, markers, name, attributes, content, closing, beforeClose⟩ := t
  match content, closing with
  | some items, some c =>
    have tidied := Content.printAll_tidiedAll (ps.map Piece.item) "" ""
    rw [String.empty_append, String.append_empty, printAll_map_item] at tidied
    exact congrArg some tidied
  | some _, none | none, some _ | none, none => cases h

theorem Tag.print_around {t : Tag} {ps : List Piece} (h : t.inside? = some (printPieces ps)) :
    (t.around ps).print = t.print := by
  obtain ⟨c, hc, printed⟩ := Tag.print_eq_of_inside h
  obtain ⟨c', hc', around⟩ := Tag.print_eq_of_inside (t.inside?_around h ps)
  obtain ⟨o, ho, rfl⟩ := Option.map_eq_some_iff.1 hc'
  obtain rfl : o = c := Option.some.inj (ho.symm.trans hc)
  rw [printed, around]
  rfl

theorem contained_items {ps : List Piece} (h : ∀ p ∈ ps, p.WellFormed) : ∀ c ∈ ps.map Piece.item, c.Contained := by
  intro c hc
  obtain ⟨p, hp, rfl⟩ := List.mem_map.1 hc
  exact (h p hp).contained

theorem elementsAll_map_item (ps : List Piece) : Content.elementsAll (ps.map Piece.item) = [] := by
  induction ps with
  | nil => rfl
  | cons p ps ih =>
    rw [List.map_cons, Content.elementsAll, ih]
    cases p <;> rfl

theorem depthAll_map_item (ps : List Piece) : Content.depthAll (ps.map Piece.item) = 0 := by
  induction ps with
  | nil => rfl
  | cons p ps ih =>
    rw [List.map_cons, Content.depthAll, ih]
    cases p <;> rfl

theorem Tag.Sound.around {t : Tag} (h : t.Sound) {ps : List Piece} (pieces : ∀ p ∈ ps, p.WellFormed)
    (inside : t.inside? = some (printPieces ps)) : (t.around ps).Sound := by
  obtain ⟨id, leading, markers, name, attributes, content, closing, beforeClose⟩ := t
  match content, closing with
  | some items, some c =>
    obtain ⟨-, -, -, named, blank⟩ := h.body
    exact ⟨h.leading, h.markers, h.name, h.attributes, h.beforeClose,
      normalLeaf_tidiedAll (contained_items pieces) List.not_mem_nil rfl, separated_tidiedAll _ "" "",
      ⟨allBlank_lead _, named, blank⟩⟩
  | some _, none | none, some _ | none, none => cases inside

/-- The value of the element is that of the pieces that show. -/
theorem Tag.Sound.value?_of_splits {t : Tag} (h : t.Sound) (inner : ∀ u ∈ Content.elementsBody t.content, u.Normal)
    (depth : t.depth ≤ maxDepth) {text : String} (inside : t.inside? = some text) {ps : List Piece}
    (splits : Splits text ps) : t.value? = some (Text.trim (valueOf (ps.filter Piece.shows))) := by
  obtain ⟨rfl, pieces, maximal⟩ := splits
  have none_inside : ∀ u ∈ Content.elementsBody (t.around ps).content, u.Normal := by
    refine Content.normal_elements_tidiedAll (ps.map Piece.item) ?_ "" ""
    rw [elementsAll_map_item]
    exact fun u hu => absurd hu List.not_mem_nil
  have flat : (t.around ps).depth ≤ maxDepth := by
    have le := Content.depthAll_tidiedAll_le (ps.map Piece.item) "" ""
    rw [depthAll_map_item] at le
    exact Nat.le_trans (Nat.succ_le_succ le) (by decide)
  -- the element built from the pieces prints as this one, and may be found just as well
  have same :=
    Tag.anonymous_eq_of_print h (h.around pieces inside) inner none_inside depth flat (Tag.print_around inside).symm
  rw [← t.value?_anonymous, same, Tag.value?_anonymous, Tag.value?_of_content rfl, textOf_tidiedAll maximal (.inl rfl)]
  rfl

/-- The value of an element that holds character data only is all of it, decoded and trimmed, exactly if blank runs
between its pieces have nothing but white space on one side. -/
theorem value_of_characterData {path : FilePath} {source : String} {ids ids' : Supply} {d : Document}
    (parsed : (Document.parse path source).run.run ids = (.ok d, ids')) {t : Tag} (ht : t ∈ d.root.elements)
    {text : String} (inside : t.inside? = some text) {ps : List Piece} (splits : Splits text ps) :
    t.value? = some (Text.trim (valueOf ps)) ↔ AtEnds ps := by
  obtain ⟨readable, -⟩ := readable_of_parse parsed
  have inner : ∀ u ∈ Content.elementsBody t.content, u.Normal := by
    intro u hu
    have hr := Tag.elementsBody_subset ht hu
    have sound := readable.elements u (Tag.mem_elements_iff.2 (.inr (Content.mem_elementsBody_iff.1 hr)))
    exact Tag.normal_iff_sound.2 ⟨sound, readable.inner u hr⟩
  have depth : t.depth ≤ maxDepth := Nat.le_trans (Tag.elements_subset d.root ht).2 readable.depth
  rw [(readable.elements t ht).value?_of_splits inner depth inside splits, Option.some.injEq, Text.trim, Text.trim,
    toList_valueOf, toList_valueOf, String.ofList_inj]
  constructor
  · intro same before p behind e hidden
    by_contra both
    obtain ⟨front, back⟩ := not_or.1 both
    subst e
    exact trim_shown_ne hidden ((splits.wellFormed p (by simp)).value_ne hidden) front back same
  · exact trim_shown_of_atEnds

/-- Runs and sections, one of which looks like an element; the blank run between them stands in front of all text. -/
def sectionsPieces : List Piece := [.run "\n", .cdata " ", .run " ", .cdata "<b>", .run " y &lt;"]

def sectionsText : String := "<r><a>" ++ printPieces sectionsPieces ++ "</a></r>"

theorem value_of_characterData_sectionsPieces : ∃ d ids, ∃ t ∈ d.root.elements,
    (Document.parse ⟨"a.xml"⟩ sectionsText).run.run {} = (.ok d, ids) ∧
      t.inside? = some (printPieces sectionsPieces) ∧ t.value? = some "<b> y <" := by
  have read : ((Document.parse ⟨"a.xml"⟩ sectionsText).run.run {}).1.toBool = true := by decide +kernel
  have found : ((Document.parse ⟨"a.xml"⟩ sectionsText).run.run {}).1.toOption.map (fun d =>
      d.root.elements.map Tag.inside?) =
        some [some ("<a>" ++ printPieces sectionsPieces ++ "</a>"), some (printPieces sectionsPieces)] := by
    decide +kernel
  obtain ⟨d, parsed⟩ := exists_eq_ok_of_toBool read
  rw [parsed] at found
  have listed : d.root.elements.map Tag.inside? = _ := Option.some.inj found
  obtain ⟨t, ht, inside⟩ : ∃ t ∈ d.root.elements, t.inside? = some (printPieces sectionsPieces) := by
    rw [← List.mem_map, listed]
    exact List.mem_cons_of_mem _ List.mem_cons_self
  have splits : Splits (printPieces sectionsPieces) sectionsPieces := by decide +kernel
  have value := (value_of_characterData parsed ht inside splits).2 (by decide +kernel)
  refine ⟨d, _, t, ht, parsed, inside, value.trans (congrArg some ?_)⟩
  decide +kernel

/-- A blank run between two sections is missing from the value. -/
theorem blank_run_missing : ∃ d ids text ps,
    (Document.parse ⟨"a.xml"⟩ "<a><![CDATA[x]]> <![CDATA[y]]></a>").run.run {} = (.ok d, ids) ∧
      d.root.inside? = some text ∧ Splits text ps ∧ d.root.value? = some "xy" ∧ Text.trim (valueOf ps) = "x y" := by
  have value : ((Document.parse ⟨"a.xml"⟩ "<a><![CDATA[x]]> <![CDATA[y]]></a>").run.run {}).1.toOption.map (fun d =>
      (d.root.inside?, d.root.value?)) = some (some "<![CDATA[x]]> <![CDATA[y]]>", some "xy") := by decide +kernel
  have read : ((Document.parse ⟨"a.xml"⟩ "<a><![CDATA[x]]> <![CDATA[y]]></a>").run.run {}).1.toBool = true := by
    decide +kernel
  obtain ⟨d, parsed⟩ := exists_eq_ok_of_toBool read
  rw [parsed] at value
  obtain ⟨inside, value⟩ := Prod.mk.inj (Option.some.inj value)
  refine ⟨d, _, _, [.cdata "x", .run " ", .cdata "y"], parsed, inside, ?_, value, by decide +kernel⟩
  decide +kernel

end Emend.Markup
