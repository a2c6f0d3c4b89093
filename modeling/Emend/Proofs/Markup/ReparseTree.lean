import Emend.Proofs.Markup.Reparse

/-! # Reading back normal elements

An element in normal form is read from its text by the turns its items make, one after the other. What
carries the induction is the state between two turns: the reader stands in the content of an open element
and has pushed the items it has passed, without their ids.
-/

namespace Emend.Markup

open Text (Step)

theorem Reads.map_widen {α β : Type} {s t : List Char} {x : Except Fault (Step α s)} {a : α} {r : List Char}
    (h : Reads x a r) (f : α → β) (le : s.length ≤ t.length) :
    Reads (do let y ← x; return (y.map f).widen le) (f a) r := by
  obtain ⟨_, rfl⟩ := h
  exact ⟨_, rfl⟩

def startedTag (leading : String) (start : List Char) (name : String) (found : StartTagEnd) : Started :=
  if found.selfClosing then
    .whole {
      id := .none
      leading
      markers := []
      name
      attributes := found.attributes
      content := none
      closing := none
      beforeClose := found.beforeClose }
  else
    .opened {
      leading
      name
      attributes := found.attributes
      beforeClose := found.beforeClose
      start
      items := [] }

theorem readStartTag_reads (leading : String) (start : List Char) {s rest : List Char} {found : StartTagEnd}
    (hn : nameOf s ≠ [])
    (h : Reads (readStartTagEnd (String.ofList (nameOf s)) start [] (afterName s)) found rest) :
    Reads (readStartTag leading start s) (startedTag leading start (String.ofList (nameOf s)) found) rest := by
  obtain ⟨_, h⟩ := h
  unfold readStartTag
  dsimp only
  rw [if_neg hn, h]
  exact ⟨_, rfl⟩

/-- Behind the name of an element, attributes, blanks and the bracket end it. -/
theorem isNameEnd_head_startTagEnd {attributes : List Attribute} {beforeClose : String}
    (h : ∀ a ∈ attributes, a.Normal ∧ a.leading ≠ "") (hb : Text.allBlank beforeClose = true) (selfClosing : Bool)
    (rest : List Char) :
    ∀ c ∈ ((printAttributes attributes).toList ++ (beforeClose.toList ++ (tagEnd selfClosing ++ rest))).head?,
      isNameEnd c = true := by
  cases attributes with
  | nil =>
    change ∀ c ∈ (beforeClose.toList ++ (tagEnd selfClosing ++ rest)).head?, isNameEnd c = true
    refine isNameEnd_head_append hb ?_
    cases selfClosing <;> exact Text.forall_head_cons (by decide)
  | cons a as =>
    obtain ⟨ha, hl⟩ := h a List.mem_cons_self
    rw [toList_printAttributes_cons]
    cases e : a.leading.toList with
    | nil => exact absurd (String.toList_eq_nil_iff.1 e) hl
    | cons c s =>
      refine Text.forall_head_cons (isNameEnd_of_isBlank (Text.allBlank_iff.1 ha.leading c ?_))
      rw [e]
      exact List.mem_cons_self

theorem reads_startTag {leading name : String} {start : List Char} {attributes : List Attribute}
    {beforeClose : String} (hn : IsName name) (h : ∀ a ∈ attributes, a.Normal ∧ a.leading ≠ "")
    (hb : Text.allBlank beforeClose = true) (selfClosing : Bool) (rest : List Char) :
    Reads (readStartTag leading start
        (name.toList ++ ((printAttributes attributes).toList ++ (beforeClose.toList ++ (tagEnd selfClosing ++ rest)))))
      (startedTag leading start name ⟨attributes.map Attribute.anonymous, beforeClose, selfClosing⟩) rest := by
  have he := isNameEnd_head_startTagEnd h hb selfClosing rest
  have hf := reads_startTagEnd name start h hb selfClosing [] rest
  have hs := nameOf_append hn he
  rw [List.reverse_nil, List.nil_append] at hf
  have hr := readStartTag_reads leading start (by rw [hs]; exact hn.1)
    (by rw [hs, afterName_append hn he, String.ofList_toList]; exact hf)
  rw [hs, String.ofList_toList] at hr
  exact hr

theorem after?_bracket_eq_none {c d : Char} (h : c ≠ d) (p s : List Char) :
    Text.after? ('<' :: c :: p) ('<' :: d :: s) = none := by
  simp [Text.after?, h]

section

variable {leading : String} {current : OpenTag} {depth : Nat} {s rest : List Char}

theorem readTurn_closing {c : Closing} (h : Reads (readClosing leading current.name ('<' :: '/' :: s) s) c rest) :
    Reads (readTurn leading current depth ('<' :: '/' :: s)) (.close c) rest := by
  unfold readTurn
  split
  next e =>
    cases e
    exact h.map_widen _ _
  next e => cases e

theorem readTurn_comment {c : Comment} (h : Reads (readComment leading ('<' :: '!' :: '-' :: '-' :: s) s) c rest) :
    Reads (readTurn leading current depth ('<' :: '!' :: '-' :: '-' :: s)) (.item (.comment c)) rest := by
  unfold readTurn
  split
  next e => cases e
  split
  next e =>
    cases e
    exact h.map_widen _ _
  next e => cases e

theorem readTurn_cdata {d : CharData} (h : Reads (readCdata leading ("<![CDATA[".toList ++ s) s) d rest) :
    Reads (readTurn leading current depth ("<![CDATA[".toList ++ s)) (.item (.charData d)) rest := by
  unfold readTurn
  split
  next e => cases e
  split
  next e => cases e
  split
  next e =>
    cases e
    exact h.map_widen _ _
  next e => cases e

theorem readTurn_instruction {i : Instruction} (h : Reads (readInstruction leading ('<' :: '?' :: s) s) i rest) :
    Reads (readTurn leading current depth ('<' :: '?' :: s)) (.item (.instruction i)) rest := by
  unfold readTurn
  split
  next e => cases e
  split
  next e => cases e
  split
  next e => cases e
  split
  next e =>
    cases e
    exact h.map_widen _ _
  next e => cases e

/-- A bracket that no other construct begins with begins an element. -/
theorem readTurn_eq_readStartTag (leading : String) (current : OpenTag) {c : Char} (s : List Char) (hs : c ≠ '/')
    (hi : c ≠ '?') (hd : c ≠ '!') (hl : depth < maxDepth) :
    readTurn leading current depth ('<' :: c :: s) = (do
      let started ← readStartTag leading ('<' :: c :: s) (c :: s)
      return (started.map Started.turn).widen (Nat.le_succ _)) := by
  have hm : Text.startsWith ('<' :: c :: s) ['<', '!'] = false := by
    rw [Text.startsWith, after?_bracket_eq_none hd.symm]
    rfl
  unfold readTurn
  split
  next e => exact absurd (e.symm.trans (after?_bracket_eq_none hs.symm _ _)) (by simp)
  split
  next e => exact absurd (e.symm.trans (after?_bracket_eq_none hd.symm _ _)) (by simp)
  split
  next e => exact absurd (e.symm.trans (after?_bracket_eq_none hd.symm _ _)) (by simp)
  split
  next e => exact absurd (e.symm.trans (after?_bracket_eq_none hi.symm _ _)) (by simp)
  rw [if_neg (by rw [hm]; exact Bool.false_ne_true), if_neg (Nat.not_le_of_lt hl)]
  split
  next e => cases e
  next e =>
    cases e
    rfl

theorem readTurn_startTag {c : Char} {x : Started} (hs : c ≠ '/') (hi : c ≠ '?') (hd : c ≠ '!')
    (hl : depth < maxDepth) (h : Reads (readStartTag leading ('<' :: c :: s) (c :: s)) x rest) :
    Reads (readTurn leading current depth ('<' :: c :: s)) x.turn rest := by
  rw [readTurn_eq_readStartTag leading current s hs hi hd hl]
  exact h.map_widen _ _

end

def OpenTag.proceed (o : OpenTag) (outer : List OpenTag) (rest : List Char) : Turn → Except Fault (Tag × List Char)
  | .close closing =>
    match outer with
    | [] => .ok (o.close closing, rest)
    | parent :: outer => readContent (parent.push (.tag (o.close closing))) outer rest
  | .item item => readContent (o.push item) outer rest
  | .enter tag => readContent tag (o :: outer) rest

theorem readContent_eq_proceed {current : OpenTag} {outer : List OpenTag} {s : List Char} (turn : Turn)
    (rest : List Char) (hs : s.dropWhile (· ≠ '<') ≠ [])
    (h : Reads (readTurn (current.takeText (s.takeWhile (· ≠ '<'))).2 current (outer.length + 1)
      (s.dropWhile (· ≠ '<'))) turn rest) :
    readContent current outer s = (current.takeText (s.takeWhile (· ≠ '<'))).1.proceed outer rest turn := by
  obtain ⟨_, h⟩ := h
  rw [readContent]
  dsimp only
  rw [if_neg hs, h]
  cases turn with
  | close closing => cases outer <;> rfl
  | item item => rfl
  | enter tag => rfl

/-- Blanks in front of a bracket belong to the turn. -/
theorem readContent_turn {leading : String} (current : OpenTag) (outer : List OpenTag) {s rest : List Char}
    {turn : Turn} (hb : Text.allBlank leading = true) (hs : s.head? = some '<')
    (h : Reads (readTurn leading current (outer.length + 1) s) turn rest) :
    readContent current outer (leading.toList ++ s) = current.proceed outer rest turn := by
  have hp : ∀ c ∈ leading.toList, (decide (c ≠ '<')) = true := by
    intro c hc
    rw [decide_eq_true_iff]
    rintro rfl
    exact Text.not_mem_of_allBlank hb rfl hc
  have hc : ∀ c ∈ s.head?, (decide (c ≠ '<')) = false := by
    rw [hs]
    rintro c ⟨⟩
    rfl
  have ht := Text.takeWhile_append_stop hp hc
  have hd := Text.dropWhile_append_stop hp hc
  have he : current.takeText leading.toList = (current, leading) := by
    unfold OpenTag.takeText
    rw [if_pos (show leading.toList.all Text.isBlank = true from hb), String.ofList_toList]
  rw [readContent_eq_proceed turn rest, ht, he]
  · rw [hd]
    rintro rfl
    cases hs
  · rw [hd, ht, he]
    exact h

theorem readContent_eq_error {current : OpenTag} {outer : List OpenTag} {s : List Char} {e : Fault}
    (hs : s.dropWhile (· ≠ '<') ≠ [])
    (h : readTurn (current.takeText (s.takeWhile (· ≠ '<'))).2 current (outer.length + 1)
      (s.dropWhile (· ≠ '<')) = .error e) :
    readContent current outer s = .error e := by
  rw [readContent]
  dsimp only
  rw [if_neg hs, h]

/-- A run of text up to a bracket is an item. -/
theorem readContent_text {text : String} (current : OpenTag) (outer : List OpenTag) (s : List Char)
    (hb : Text.allBlank text = false) (hm : '<' ∉ text.toList) :
    readContent current outer (text.toList ++ '<' :: s) =
      readContent (current.push (.charData { id := .none, leading := "", cdata := false, text })) outer ('<' :: s) := by
  have hp : ∀ c ∈ text.toList, (decide (c ≠ '<')) = true := by
    intro c hc
    rw [decide_eq_true_iff]
    rintro rfl
    exact hm hc
  have ht := Text.takeWhile_append_stop hp (s := '<' :: s) (Text.forall_head_cons (by decide))
  have hd := Text.dropWhile_append_stop hp (s := '<' :: s) (Text.forall_head_cons (by decide))
  have he : current.takeText text.toList =
      (current.push (.charData { id := .none, leading := "", cdata := false, text }), "") := by
    unfold OpenTag.takeText
    rw [if_neg (by rw [show text.toList.all Text.isBlank = false from hb]; exact Bool.false_ne_true),
      String.ofList_toList]
  -- the open element shows in a turn by its name and start only, which a further item does not change
  cases hr : readTurn "" current (outer.length + 1) ('<' :: s) with
  | error e =>
    rw [readContent_eq_error (e := e), readContent_eq_error (e := e)]
    · exact List.cons_ne_nil _ _
    · exact hr
    · rw [hd]
      exact List.cons_ne_nil _ _
    · rw [hd, ht, he]
      exact hr
  | ok turn =>
    rw [readContent_eq_proceed turn.value turn.rest,
      readContent_eq_proceed turn.value turn.rest, ht, he]
    · rfl
    · exact List.cons_ne_nil _ _
    · exact ⟨turn.shorter, hr⟩
    · rw [hd]
      exact List.cons_ne_nil _ _
    · rw [hd, ht, he]
      exact ⟨turn.shorter, hr⟩

def Tag.startTagText (t : Tag) (selfClosing : Bool) (rest : List Char) : List Char :=
  t.name.toList ++ ((printAttributes t.attributes).toList ++ (t.beforeClose.toList ++ (tagEnd selfClosing ++ rest)))

def Tag.started (t : Tag) (start : List Char) (selfClosing : Bool) : Started :=
  startedTag t.leading start t.name ⟨t.attributes.map Attribute.anonymous, t.beforeClose, selfClosing⟩

theorem Tag.Sound.reads {t : Tag} (h : t.Sound) (start : List Char) (selfClosing : Bool) (rest : List Char) :
    Reads (readStartTag t.leading start (t.startTagText selfClosing rest)) (t.started start selfClosing) rest :=
  reads_startTag h.name h.attributes h.beforeClose selfClosing rest

theorem Tag.Sound.exists_cons {t : Tag} (h : t.Sound) (selfClosing : Bool) (rest : List Char) :
    ∃ c s, t.startTagText selfClosing rest = c :: s ∧ t.name.toList.head? = some c ∧ c ≠ '/' ∧ c ≠ '?' := by
  obtain ⟨hn, he⟩ := h.name
  unfold Tag.startTagText
  cases e : t.name.toList with
  | nil => exact absurd e hn
  | cons c s =>
    have hc := he c (by rw [e]; exact List.mem_cons_self)
    refine ⟨c, _, rfl, rfl, ?_, ?_⟩
    · rintro rfl
      exact absurd hc (by decide)
    · rintro rfl
      exact absurd hc (by decide)

/-- What the name of the element does not begin with, its start tag does not either. -/
theorem Tag.Sound.after?_eq_none {t : Tag} (h : t.Sound) {p : List Char} (hp : p.any isNameEnd = false)
    (hn : Text.startsWith t.name.toList p = false) (selfClosing : Bool) (rest : List Char) :
    Text.after? ('<' :: p) ('<' :: t.startTagText selfClosing rest) = none := by
  have he := isNameEnd_head_startTagEnd h.attributes h.beforeClose selfClosing rest
  have hn : Text.after? p t.name.toList = none := by simpa [Text.startsWith] using hn
  rw [Text.after?, if_pos rfl, Text.after?_eq_none_iff, Tag.startTagText]
  intro r hr
  rcases List.append_eq_append_iff.1 hr with ⟨bs, hb, hs⟩ | ⟨bs, hb, -⟩
  · cases bs with
    | nil => exact Text.after?_eq_none_iff.1 hn [] (by rw [List.append_nil, hb, List.append_nil])
    | cons b bs =>
      -- the first character behind the name would stand inside `p`
      have hx : isNameEnd b = true := he b (by rw [hs]; rfl)
      exact List.any_eq_false.1 hp b (by rw [hb]; simp) hx
  · exact Text.after?_eq_none_iff.1 hn bs hb

theorem Tag.Sound.after?_question_eq_none {t : Tag} (h : t.Sound) (selfClosing : Bool) (rest : List Char) :
    Text.after? ['<', '?'] ('<' :: t.startTagText selfClosing rest) = none := by
  obtain ⟨c, s, e, -, -, hi⟩ := h.exists_cons selfClosing rest
  rw [e]
  exact after?_bracket_eq_none hi.symm _ _

/-- A start tag in the content of an open element. -/
theorem Tag.Normal.readContent {t : Tag} (h : t.Normal) (current : OpenTag) {outer : List OpenTag}
    (hd : outer.length + 1 < maxDepth) (selfClosing : Bool) (rest : List Char) :
    ∃ start, Emend.Markup.readContent current outer (t.leading.toList ++ '<' :: t.startTagText selfClosing rest) =
      current.proceed outer rest (t.started start selfClosing).turn := by
  refine ⟨'<' :: t.startTagText selfClosing rest, readContent_turn current outer h.leading rfl ?_⟩
  have hr := h.sound.reads ('<' :: t.startTagText selfClosing rest) selfClosing rest
  obtain ⟨c, s, e, hn, hc, hi⟩ := h.sound.exists_cons selfClosing rest
  have hx : c ≠ '!' := by
    rintro rfl
    exact h.noDeclaration hn
  rw [e] at hr ⊢
  exact readTurn_startTag hc hi hx hd hr

def OpenTag.filled (o : OpenTag) (items : List Content) : OpenTag :=
  { o with items := (Content.anonymousAll items).reverse ++ o.items }

theorem readContent_closing {o : OpenTag} {outer : List OpenTag} {c : Closing} (hn : IsName o.name)
    (h : c.Normal o.name) (rest : List Char) :
    readContent o outer (c.print.toList ++ rest) = o.proceed outer rest (.close c.anonymous) := by
  have hr := reads_closing hn h ('<' :: '/' :: (c.name.toList ++ (c.beforeClose.toList ++ '>' :: rest))) rest
  have ht := readContent_turn o outer h.leading rfl (readTurn_closing hr)
  rw [← ht, Closing.toList_print]
  simp only [List.append_assoc, List.cons_append, List.nil_append]

theorem readContent_comment {o : OpenTag} {outer : List OpenTag} {c : Comment} (h : c.Normal) (rest : List Char) :
    readContent o outer (c.print.toList ++ rest) = readContent (o.push (.comment c.anonymous)) outer rest := by
  have ht := readContent_turn o outer h.leading rfl (readTurn_comment (reads_comment h _ rest))
  rw [Comment.toList_print]
  simpa [OpenTag.proceed] using ht

theorem readContent_cdata {o : OpenTag} {outer : List OpenTag} {d : CharData} (h : d.NormalCdata) (hd : d.cdata = true)
    (rest : List Char) :
    readContent o outer (d.print.toList ++ rest) = readContent (o.push (.charData d.anonymous)) outer rest := by
  have ht := readContent_turn o outer h.leading rfl (readTurn_cdata (reads_cdata h hd _ rest))
  rw [CharData.toList_print_cdata hd]
  simp only [List.append_assoc, List.cons_append, List.nil_append]
  exact ht

theorem readContent_instruction {o : OpenTag} {outer : List OpenTag} {i : Instruction} (h : i.Normal)
    (rest : List Char) :
    readContent o outer (i.print.toList ++ rest) = readContent (o.push (.instruction i.anonymous)) outer rest := by
  have ht :=
    readContent_turn o outer h.leading rfl (readTurn_instruction (reads_instruction h _ rest))
  rw [Instruction.toList_print]
  simpa [OpenTag.proceed] using ht

theorem Tag.toList_print_normal_selfClosing {t : Tag} (hc : t.content = none) (rest : List Char) :
    t.print.toList ++ rest = t.leading.toList ++ '<' :: t.startTagText true rest := by
  obtain ⟨_, _, _, _, _, content, _, _⟩ := t
  obtain rfl : content = none := hc
  rw [Tag.toList_print_selfClosing]
  simp [startText, Tag.startTagText, tagEnd]

theorem Tag.toList_print_normal_body {t : Tag} {items : List Content} {c : Closing} (hc : t.content = some items)
    (hl : t.closing = some c) (rest : List Char) :
    t.print.toList ++ rest = t.leading.toList ++
      '<' :: t.startTagText false ((Content.printAll items).toList ++ (c.print.toList ++ rest)) := by
  obtain ⟨_, _, _, _, _, content, closing, _⟩ := t
  obtain rfl : content = some items := hc
  obtain rfl : closing = some c := hl
  rw [Tag.toList_print_body]
  simp [startText, Tag.startTagText, tagEnd]

theorem Tag.Sound.anonymous_selfClosing {t : Tag} (h : t.Sound) (hc : t.content = none) (start : List Char) :
    t.started start true = .whole t.anonymous := by
  obtain ⟨_, _, markers, _, _, content, closing, _⟩ := t
  obtain rfl : content = none := hc
  have hm : markers = [] := h.markers
  have hb := h.body
  cases closing with
  | none =>
    rw [Tag.anonymous, hm]
    rfl
  | some c => exact hb.elim

def Tag.opened (t : Tag) (start : List Char) : OpenTag where
  leading := t.leading
  name := t.name
  attributes := t.attributes.map Attribute.anonymous
  beforeClose := t.beforeClose
  start
  items := []

theorem Tag.Sound.anonymous_close {t : Tag} (h : t.Sound) {items : List Content} {c : Closing}
    (hc : t.content = some items) (hl : t.closing = some c) (start : List Char) :
    ((t.opened start).filled items).close c.anonymous = t.anonymous := by
  obtain ⟨_, _, markers, _, _, content, closing, _⟩ := t
  obtain rfl : content = some items := hc
  obtain rfl : closing = some c := hl
  have hm : markers = [] := h.markers
  rw [Tag.anonymous, hm]
  simp [OpenTag.close, OpenTag.filled, Tag.opened]

theorem OpenTag.filled_cons (o : OpenTag) (c : Content) (cs : List Content) :
    o.filled (c :: cs) = (o.push c.anonymous).filled cs := by
  simp [OpenTag.filled, OpenTag.push, Content.anonymousAll]

/-- What begins with a bracket: an item in normal form that is no text, once nothing stands in front of it. -/
theorem Content.exists_bracket {c : Content} (hl : c.leading = "") (ht : c.isText = false) (rest : List Char) :
    ∃ s, c.print.toList ++ rest = '<' :: s := by
  cases c with
  | tag t =>
    obtain ⟨s, hs⟩ := t.exists_bracket
    have he : t.leading = "" := hl
    rw [Content.print, hs, he]
    exact ⟨_, rfl⟩
  | charData d =>
    have hd : d.cdata = true := by simpa [Content.isText] using ht
    have hs : d.leading = "" := hl
    rw [Content.print, CharData.toList_print_cdata hd, hs]
    exact ⟨_, rfl⟩
  | comment c =>
    have hs : c.leading = "" := hl
    rw [Content.print, Comment.toList_print, hs]
    exact ⟨_, rfl⟩
  | instruction i =>
    have hs : i.leading = "" := hl
    rw [Content.print, Instruction.toList_print, hs]
    exact ⟨_, rfl⟩

/-- What stands behind a run of text begins with a bracket. -/
theorem Separated.exists_bracket {c : Content} {cs : List Content} {closing : Closing}
    (h : Separated closing.leading (c :: cs)) (ht : c.isText = true) (rest : List Char) :
    ∃ s, (Content.printAll cs).toList ++ (closing.print.toList ++ rest) = '<' :: s := by
  cases cs with
  | nil =>
    have hl : closing.leading = "" := h ht
    rw [Closing.toList_print, hl]
    exact ⟨_, rfl⟩
  | cons d ds =>
    obtain ⟨hl, hd⟩ := h.1 ht
    rw [Content.printAll, String.toList_append, List.append_assoc]
    exact Content.exists_bracket hl hd _

theorem Separated.tail {last : String} {c : Content} {cs : List Content} (h : Separated last (c :: cs)) :
    Separated last cs := by
  cases cs with
  | nil => trivial
  | cons d ds => exact h.2

mutual

theorem Tag.readContent_print (t : Tag) (hn : ∀ u ∈ t.elements, u.Normal) {current : OpenTag} {outer : List OpenTag}
    (hd : outer.length + 1 + t.depth ≤ maxDepth) (rest : List Char) :
    readContent current outer (t.print.toList ++ rest) = readContent (current.push (.tag t.anonymous)) outer rest := by
  obtain ⟨id, leading, markers, name, attributes, content, closing, beforeClose⟩ := t
  have ht := hn _ (Tag.mem_elements_self _)
  rw [Tag.depth] at hd
  cases content with
  | none =>
    obtain ⟨start, hr⟩ := ht.readContent current (show outer.length + 1 < maxDepth by omega) true rest
    rw [Tag.toList_print_normal_selfClosing rfl, hr, ht.sound.anonymous_selfClosing rfl]
    rfl
  | some items =>
    cases closing with
    | none => exact ht.body.elim
    | some c =>
      obtain ⟨hl, hs, hc⟩ := ht.body
      obtain ⟨start, hr⟩ := ht.readContent current (show outer.length + 1 < maxDepth by omega) false
        ((Content.printAll items).toList ++ (c.print.toList ++ rest))
      -- inside the element the items are read one level deeper, and then its own closing tag
      have hi : ∀ u ∈ Content.elementsAll items, u.Normal := fun u hu =>
        hn u (Tag.mem_elements_iff.2 (.inr ⟨items, rfl, hu⟩))
      rw [Content.depthBody] at hd
      rw [Tag.toList_print_normal_body rfl rfl, hr, ← ht.sound.anonymous_close rfl rfl start]
      change readContent (Tag.opened _ start) (current :: outer) _ = _
      rw [Content.readContent_printAll items hi hl hs (by rw [List.length_cons]; omega),
        readContent_closing ht.name hc]
      rfl

/-- An item in the content of an open element; a run of text ends at a bracket only. -/
theorem Content.readContent_print (c : Content) (hn : ∀ u ∈ c.elements, u.Normal) (hl : c.NormalLeaf)
    {current : OpenTag} {outer : List OpenTag} (hd : outer.length + 1 + c.depth ≤ maxDepth) {rest : List Char}
    (hr : c.isText = true → ∃ s, rest = '<' :: s) :
    readContent current outer (c.print.toList ++ rest) = readContent (current.push c.anonymous) outer rest := by
  cases c with
  | tag t => exact t.readContent_print hn hd rest
  | charData d =>
    obtain ⟨id, leading, cdata, text⟩ := d
    cases cdata with
    | true => exact readContent_cdata hl rfl rest
    | false =>
      obtain ⟨rfl, hb, hm⟩ : CharData.NormalText _ := hl
      obtain ⟨s, rfl⟩ := hr rfl
      rw [Content.print, CharData.toList_print_raw rfl]
      exact readContent_text current outer s hb hm
  | comment c => exact readContent_comment hl rest
  | instruction i => exact readContent_instruction hl rest

theorem Content.readContent_printAll (items : List Content) (hn : ∀ u ∈ Content.elementsAll items, u.Normal)
    (hl : ∀ c ∈ items, c.NormalLeaf) {closing : Closing} (hs : Separated closing.leading items) {current : OpenTag}
    {outer : List OpenTag} (hd : outer.length + 1 + Content.depthAll items ≤ maxDepth) (rest : List Char) :
    readContent current outer ((Content.printAll items).toList ++ (closing.print.toList ++ rest)) =
      readContent (current.filled items) outer (closing.print.toList ++ rest) := by
  cases items with
  | nil => rfl
  | cons c cs =>
    rw [Content.depthAll] at hd
    have hc : ∀ u ∈ c.elements, u.Normal := fun u hu => hn u (by
      rw [Content.elementsAll]
      exact List.mem_append_left _ hu)
    have hcs : ∀ u ∈ Content.elementsAll cs, u.Normal := fun u hu => hn u (by
      rw [Content.elementsAll]
      exact List.mem_append_right _ hu)
    rw [Content.printAll, String.toList_append, List.append_assoc,
      Content.readContent_print c hc (hl c List.mem_cons_self) (by omega) fun ht => hs.exists_bracket ht rest,
      Content.readContent_printAll cs hcs (fun x hx => hl x (List.mem_cons_of_mem c hx)) hs.tail (by omega),
      OpenTag.filled_cons]

end

end Emend.Markup
