import Emend.Proofs.Markup.ReparseDocument
import Mathlib.Data.List.Chain

/-! # What was read can be read back

Every reader returns a node whose fields end where the reader ended them, so that a document that was read is
readable once it is printed, and so is any document made from it that keeps the clauses.
-/

namespace Emend.Markup

open Text (Step)

theorem allBlank_blanksOf (s : List Char) : Text.allBlank (String.ofList (blanksOf s)) = true := by
  rw [Text.allBlank_iff, String.toList_ofList]
  intro c hc
  exact List.mem_takeWhile_imp hc

theorem isName_nameOf {s : List Char} (h : nameOf s ≠ []) : IsName (String.ofList (nameOf s)) := by
  unfold IsName
  rw [String.toList_ofList]
  refine ⟨h, fun c hc => ?_⟩
  have hp : (!isNameEnd c) = true := List.mem_takeWhile_imp (p := (!isNameEnd ·)) hc
  simpa using hp

theorem isNameEnd_head_afterName (s : List Char) : ∀ c ∈ (afterName s).head?, isNameEnd c = true := by
  intro c hc
  have hp := List.head?_dropWhile_not (!isNameEnd ·) s
  rw [show s.dropWhile (!isNameEnd ·) = afterName s from rfl, Option.mem_def.1 hc] at hp
  simpa using hp

theorem nameOf_eq_nil {s : List Char} (h : ∀ c ∈ s.head?, isNameEnd c = true) : nameOf s = [] := by
  cases s with
  | nil => rfl
  | cons c s => rw [nameOf, List.takeWhile_cons_of_neg (by rw [h c rfl]; decide)]

theorem head?_of_head?_nameOf {s : List Char} {c : Char} (h : (nameOf s).head? = some c) : s.head? = some c := by
  rw [← nameOf_append_afterName s]
  exact List.mem_head?_append_of_mem_head? h

theorem normal_readAttribute {leading : String} {s : List Char} {a : Step Attribute s}
    (hl : Text.allBlank leading = true) (h : readAttribute leading s = .ok a) :
    a.value.Normal ∧ a.value.leading = leading ∧ nameOf s ≠ [] := by
  obtain ⟨hn, s₁, s₂, quote, rawValue, -, -, hv, hm, ha⟩ := of_readAttribute_eq_ok h
  rw [ha]
  refine ⟨⟨hl, rfl, isName_nameOf hn, allBlank_blanksOf _, allBlank_blanksOf _, ?_, hm⟩, rfl, hn⟩
  exact Text.contains_singleton_eq_false_iff.1 (Text.contains_eq_false_of_breakOn? (List.cons_ne_nil _ _) hv)

theorem normal_readComment {leading : String} {start s : List Char} {x : Step Comment s}
    (hl : Text.allBlank leading = true) (h : readComment leading start s = .ok x) :
    x.value.Normal ∧ x.value.leading = leading := by
  obtain ⟨text, ht, hx⟩ := of_readComment_eq_ok h
  rw [hx]
  exact ⟨⟨hl, Text.contains_eq_false_of_breakOn? (List.cons_ne_nil _ _) ht⟩, rfl⟩

theorem normal_readCdata {leading : String} {start s : List Char} {x : Step CharData s}
    (hl : Text.allBlank leading = true) (h : readCdata leading start s = .ok x) :
    x.value.cdata = true ∧ x.value.NormalCdata ∧ x.value.leading = leading := by
  obtain ⟨text, ht, hx⟩ := of_readCdata_eq_ok h
  rw [hx]
  exact ⟨rfl, ⟨hl, Text.contains_eq_false_of_breakOn? (List.cons_ne_nil _ _) ht⟩, rfl⟩

theorem normal_readInstruction {leading : String} {start s : List Char} {x : Step Instruction s}
    (hl : Text.allBlank leading = true) (h : readInstruction leading start s = .ok x) :
    x.value.Normal ∧ x.value.leading = leading := by
  obtain ⟨hn, content, hc, hx⟩ := of_readInstruction_eq_ok h
  rw [hx]
  refine ⟨⟨hl, isName_nameOf hn, ?_, Text.contains_eq_false_of_breakOn? (List.cons_ne_nil _ _) hc⟩, rfl⟩
  have he := isNameEnd_head_afterName s
  rw [Text.eq_of_breakOn? hc] at he
  intro c hm
  exact he c (List.mem_head?_append_of_mem_head? hm)

/-- The search for the closing bracket does not look behind it. -/
theorem breakDocType_take {quote : Option Char} {depth : Nat} {s body rest : List Char}
    (h : breakDocType quote depth s = some (body, rest)) :
    breakDocType quote depth (body ++ ['>']) = some (body, []) := by
  induction s generalizing quote depth body rest with
  | nil => cases h
  | cons c s ih =>
    cases quote with
    | some q =>
      simp only [breakDocType, Option.map_eq_some_iff] at h
      obtain ⟨⟨b, r⟩, hb, he⟩ := h
      cases he
      rw [List.cons_append, breakDocType, ih hb]
      rfl
    | none =>
      simp only [breakDocType] at h
      split at h
      next hc =>
        cases h
        obtain ⟨-, hd⟩ := hc
        simp [breakDocType, hd]
      next hc =>
        obtain ⟨⟨b, r⟩, hb, he⟩ := Option.map_eq_some_iff.1 h
        cases he
        rw [List.cons_append, breakDocType, if_neg hc]
        dsimp only
        rw [ih hb]
        rfl

theorem normal_readDocType {leading : String} {start s : List Char} {x : Step DocType s}
    (hl : Text.allBlank leading = true) (h : readDocType leading start s = .ok x) : x.value.Normal := by
  obtain ⟨body, hb, hx⟩ := of_readDocType_eq_ok h
  rw [hx]
  exact ⟨hl, breakDocType_take hb⟩

theorem normal_readClosing {leading expected : String} {start s : List Char} {x : Step Closing s}
    (hl : Text.allBlank leading = true) (h : readClosing leading expected start s = .ok x) :
    x.value.Normal expected ∧ x.value.leading = leading := by
  obtain ⟨-, hn, hx⟩ := of_readClosing_eq_ok h
  rw [hx]
  exact ⟨⟨hl, hn, allBlank_blanksOf _⟩, rfl⟩

/-- Where a name has just ended, a name can begin only behind blanks. -/
theorem blanksOf_ne_nil {s : List Char} (hs : ∀ c ∈ s.head?, isNameEnd c = true) (hn : nameOf (afterBlanks s) ≠ []) :
    String.ofList (blanksOf s) ≠ "" := by
  intro he
  have e := blanksOf_append_afterBlanks s
  rw [String.ofList_eq_empty_iff.1 he, List.nil_append] at e
  rw [e] at hn
  exact hn (nameOf_eq_nil hs)

theorem normal_readStartTagEnd {name : String} {start : List Char} {read : List Attribute} {s : List Char}
    {found : Step StartTagEnd s} (hs : read = [] → ∀ c ∈ s.head?, isNameEnd c = true)
    (hr : ∀ a ∈ read, a.Normal ∧ a.leading ≠ "") (h : readStartTagEnd name start read s = .ok found) :
    (∀ a ∈ found.value.attributes, a.Normal ∧ a.leading ≠ "") ∧ Text.allBlank found.value.beforeClose = true := by
  fun_induction readStartTagEnd name start read s with
  | case1 read s leading rest | case2 read s leading rest =>
    cases h
    exact ⟨fun a ha => hr a (List.mem_reverse.1 ha), allBlank_blanksOf s⟩
  | case3 | case4 | case5 => cases h
  | case6 read s leading hblank _ _ _ a =>
    rename_i ha _ ih
    obtain ⟨found', hf, rfl⟩ := map_eq_ok.1 h
    obtain ⟨hn, hl, hk⟩ := normal_readAttribute (allBlank_blanksOf s) ha
    refine ih (fun e => absurd e (List.cons_ne_nil _ _)) (fun x hx => ?_) hf
    obtain rfl | hx := List.mem_cons.1 hx
    · refine ⟨hn, fun he => ?_⟩
      rw [hl] at he
      have hnil : read = [] := by simpa [leading, he] using hblank
      exact blanksOf_ne_nil (hs hnil) hk he
    · exact hr x hx

theorem normal_readDeclarationEnd {start : List Char} {read : List Attribute} {s : List Char}
    {found : Step (List Attribute × String) s} (hs : read = [] → ∀ c ∈ s.head?, isNameEnd c = true)
    (hr : ∀ a ∈ read, a.Normal) (hf : ∀ a ∈ read.getLast?, a.leading ≠ "")
    (h : readDeclarationEnd start read s = .ok found) :
    (∀ a ∈ found.value.1, a.Normal) ∧ (∀ a ∈ found.value.1.head?, a.leading ≠ "") ∧
      Text.allBlank found.value.2 = true := by
  fun_induction readDeclarationEnd start read s with
  | case1 read s leading rest =>
    cases h
    refine ⟨fun a ha => hr a (List.mem_reverse.1 ha), ?_, allBlank_blanksOf s⟩
    rw [List.head?_reverse]
    exact hf
  | case2 | case3 => cases h
  | case4 read s leading _ _ a =>
    rename_i ha _ ih
    obtain ⟨found', hfound, rfl⟩ := map_eq_ok.1 h
    obtain ⟨hn, hl, hk⟩ := normal_readAttribute (allBlank_blanksOf s) ha
    refine ih (fun e => absurd e (List.cons_ne_nil _ _)) (fun x hx => ?_) (fun x hx => ?_) hfound
    · obtain rfl | hx := List.mem_cons.1 hx
      · exact hn
      · exact hr x hx
    · cases read with
      | nil =>
        cases hx
        rw [List.getLast_singleton, hl]
        exact blanksOf_ne_nil (hs rfl) hk
      | cons y ys => exact hf x (by rwa [List.getLast?_cons_cons] at hx)

/-- Nothing stands in front of what follows a run of text, and it is no text. -/
def Content.Abuts (c d : Content) : Prop := c.isText = true → d.leading = "" ∧ d.isText = false

theorem separated_iff {last : String} {items : List Content} :
    Separated last items ↔
      items.IsChain Content.Abuts ∧ ∀ c ∈ items.getLast?, c.isText = true → last = "" := by
  induction items with
  | nil => simp [Separated]
  | cons c cs ih =>
    cases cs with
    | nil => simp [Separated]
    | cons d ds =>
      rw [Separated, ih, List.isChain_cons_cons, List.getLast?_cons_cons, and_assoc]
      rfl

/-- The clauses of an element whose closing tag has not come yet and inside which elements are at level
`level` or deeper. -/
structure OpenTag.Sound (level : Nat) (o : OpenTag) : Prop where
  leading : Text.allBlank o.leading = true
  name : IsName o.name
  attributes : ∀ a ∈ o.attributes, a.Normal ∧ a.leading ≠ ""
  beforeClose : Text.allBlank o.beforeClose = true
  leaves : ∀ c ∈ o.items, c.NormalLeaf
  chain : o.items.IsChain (flip Content.Abuts)
  elements : ∀ c ∈ o.items, ∀ u ∈ c.elements, u.Normal
  bound : level ≤ maxDepth
  depth : ∀ c ∈ o.items, level + c.depth ≤ maxDepth

/-- What has `leading` in front of it may come next in the content. -/
def OpenTag.Admits (o : OpenTag) (leading : String) : Prop := ∀ c ∈ o.items.head?, c.isText = true → leading = ""

/-- What is no text, with `leading` in front of it, is an item at `level`. -/
structure Content.SoundAt (level : Nat) (leading : String) (c : Content) : Prop where
  leaf : c.NormalLeaf
  leading : c.leading = leading
  notText : c.isText = false
  elements : ∀ u ∈ c.elements, u.Normal
  depth : level + c.depth ≤ maxDepth

namespace OpenTag.Sound

variable {level : Nat} {o : OpenTag}

theorem push (h : o.Sound level) {c : Content} {leading : String} (hc : c.SoundAt level leading)
    (ha : o.Admits leading) : (o.push c).Sound level where
  leading := h.leading
  name := h.name
  attributes := h.attributes
  beforeClose := h.beforeClose
  leaves d hd := by
    obtain rfl | hd := List.mem_cons.1 hd
    · exact hc.leaf
    · exact h.leaves d hd
  chain := List.isChain_cons.2 ⟨fun d hd ht => ⟨hc.leading.trans (ha d hd ht), hc.notText⟩, h.chain⟩
  elements d hd := by
    obtain rfl | hd := List.mem_cons.1 hd
    · exact hc.elements
    · exact h.elements d hd
  bound := h.bound
  depth d hd := by
    obtain rfl | hd := List.mem_cons.1 hd
    · exact hc.depth
    · exact h.depth d hd

/-- Text is an item only if it is not blank, and then nothing stands in front of the bracket behind it. -/
theorem takeText (h : o.Sound level) (hr : ∀ c ∈ o.items.head?, c.isText = false) {text : List Char}
    (hm : '<' ∉ text) :
    (o.takeText text).1.Sound level ∧ Text.allBlank (o.takeText text).2 = true ∧
      (o.takeText text).1.Admits (o.takeText text).2 := by
  unfold OpenTag.takeText
  split
  next hb =>
    refine ⟨h, ?_, fun c hc ht => ?_⟩
    · rwa [Text.allBlank, String.toList_ofList]
    · rw [hr c hc] at ht
      cases ht
  next hb =>
    -- the new item is text and the one in front of it is none, so no two runs of text meet
    refine ⟨⟨h.leading, h.name, h.attributes, h.beforeClose, fun d hd => ?_, ?_, fun d hd => ?_, h.bound,
      fun d hd => ?_⟩, rfl, fun _ _ _ => rfl⟩
    · obtain rfl | hd := List.mem_cons.1 hd
      · refine ⟨rfl, ?_, ?_⟩
        · rw [Text.allBlank, String.toList_ofList]
          exact Bool.eq_false_iff.2 hb
        · rwa [String.toList_ofList]
      · exact h.leaves d hd
    · refine List.isChain_cons.2 ⟨fun d hd ht => ?_, h.chain⟩
      rw [hr d hd] at ht
      cases ht
    · obtain rfl | hd := List.mem_cons.1 hd
      · intro u hu
        cases hu
      · exact h.elements d hd
    · obtain rfl | hd := List.mem_cons.1 hd
      · exact h.bound
      · exact h.depth d hd

theorem depthAll (h : o.Sound level) : level + Content.depthAll o.items.reverse ≤ maxDepth := by
  have key (cs : List Content) (hcs : ∀ c ∈ cs, level + c.depth ≤ maxDepth) :
      level + Content.depthAll cs ≤ maxDepth := by
    induction cs with
    | nil => exact h.bound
    | cons c cs ih =>
      have := hcs c List.mem_cons_self
      have := ih fun d hd => hcs d (List.mem_cons_of_mem c hd)
      rw [Content.depthAll]
      omega
  exact key _ fun c hc => h.depth c (List.mem_reverse.1 hc)

theorem close (h : o.Sound level) {c : Closing} (hc : c.Normal o.name) (ha : o.Admits c.leading) :
    (o.close c).Sound where
  leading := h.leading
  markers := rfl
  name := h.name
  attributes := h.attributes
  beforeClose := h.beforeClose
  body := by
    refine ⟨fun d hd => h.leaves d (List.mem_reverse.1 hd), separated_iff.2 ⟨?_, ?_⟩, hc⟩
    · rw [List.isChain_reverse]
      exact h.chain
    · rw [List.getLast?_reverse]
      exact ha

theorem elements_close (h : o.Sound level) (c : Closing) :
    ∀ u ∈ Content.elementsBody (o.close c).content, u.Normal := by
  intro u hu
  obtain ⟨d, hd, hu⟩ := Content.mem_elementsAll_iff.1 hu
  exact h.elements d (List.mem_reverse.1 hd) u hu

theorem depth_close (h : o.Sound level) (c : Closing) : level + (o.close c).depth ≤ maxDepth + 1 := by
  have := h.depthAll
  rw [OpenTag.close, Tag.depth, Content.depthBody]
  omega

end OpenTag.Sound

/-- A start tag is an element without content, or opens one at the next level. -/
def Started.Sound (level : Nat) : Started → Prop
  | whole t => t.Sound ∧ t.content = none
  | opened o => o.Sound (level + 1) ∧ o.items = []

def Started.leading : Started → String
  | whole t => t.leading
  | opened o => o.leading

def Started.name : Started → String
  | whole t => t.name
  | opened o => o.name

theorem sound_readStartTag {leading : String} {start s : List Char} {x : Step Started s} {level : Nat}
    (hl : Text.allBlank leading = true) (hd : level < maxDepth) (h : readStartTag leading start s = .ok x) :
    x.value.Sound level ∧ x.value.leading = leading ∧ x.value.name = String.ofList (nameOf s) := by
  obtain ⟨hn, found, hf, hx, -⟩ := of_readStartTag_eq_ok h
  obtain ⟨ha, hb⟩ := normal_readStartTagEnd (fun _ => isNameEnd_head_afterName s)
    (fun _ hm => absurd hm List.not_mem_nil) hf
  rw [hx, startedTag]
  split
  · exact ⟨⟨⟨hl, rfl, isName_nameOf hn, ha, hb, trivial⟩, rfl⟩, rfl, rfl⟩
  · refine ⟨⟨⟨hl, isName_nameOf hn, ha, hb, ?_, .nil, ?_, hd, ?_⟩, rfl⟩, rfl, rfl⟩
    all_goals
      intro c hc
      exact absurd hc List.not_mem_nil

/-- What may come next in the content of an open element. -/
def Turn.Sound (leading name : String) (level : Nat) : Turn → Prop
  | close c => c.Normal name ∧ c.leading = leading
  | item i => i.SoundAt level leading
  | enter o => o.Sound (level + 1) ∧ o.items = [] ∧ o.leading = leading ∧ o.name.toList.head? ≠ some '!'

theorem Content.soundAt_tag {t : Tag} {level : Nat} (h : t.Sound) (hc : t.content = none)
    (hn : t.name.toList.head? ≠ some '!') (hd : level < maxDepth) : (Content.tag t).SoundAt level t.leading := by
  obtain ⟨id, leading, markers, name, attributes, content, closing, beforeClose⟩ := t
  obtain rfl : content = none := hc
  refine ⟨trivial, rfl, rfl, fun u hu => ?_, ?_⟩
  · obtain rfl := List.mem_singleton.1 hu
    exact Tag.normal_iff_sound.2 ⟨h, hn⟩
  · rw [Content.depth, Tag.depth, Content.depthBody]
    omega

theorem Content.soundAt_leaf {c : Content} {leading : String} {level : Nat} (hd : level ≤ maxDepth)
    (hc : c.tag? = none) (hn : c.NormalLeaf) (hl : c.leading = leading) (ht : c.isText = false) :
    c.SoundAt level leading := by
  cases c with
  | tag t => cases hc
  | charData d => exact ⟨hn, hl, ht, fun _ hu => absurd hu List.not_mem_nil, hd⟩
  | comment c => exact ⟨hn, hl, ht, fun _ hu => absurd hu List.not_mem_nil, hd⟩
  | instruction i => exact ⟨hn, hl, ht, fun _ hu => absurd hu List.not_mem_nil, hd⟩

theorem Started.Sound.turn {x : Started} {level : Nat} {name : String} (h : x.Sound level)
    (hd : level < maxDepth) (hn : x.name.toList.head? ≠ some '!') : x.turn.Sound x.leading name level := by
  cases x with
  | whole t =>
    obtain ⟨ht, hc⟩ := h
    exact Content.soundAt_tag ht hc hn hd
  | opened o =>
    obtain ⟨ho, hi⟩ := h
    exact ⟨ho, hi, rfl, hn⟩

theorem TurnRead.sound {leading : String} {current : OpenTag} {level : Nat} {s rest : List Char} {turn : Turn}
    (h : TurnRead leading current level s turn rest) (hl : Text.allBlank leading = true) (hd : level ≤ maxDepth) :
    turn.Sound leading current.name level := by
  cases h with
  | close read => exact normal_readClosing hl read
  | comment read =>
    obtain ⟨hn, hb⟩ := normal_readComment hl read
    exact Content.soundAt_leaf hd rfl hn hb rfl
  | cdata read =>
    obtain ⟨hc, hn, hb⟩ := normal_readCdata hl read
    refine Content.soundAt_leaf hd rfl ?_ hb ?_
    · rw [Content.NormalLeaf, if_pos hc]
      exact hn
    · rw [Content.isText, hc]
      rfl
  | instruction read =>
    obtain ⟨hn, hb⟩ := normal_readInstruction hl read
    exact Content.soundAt_leaf hd rfl hn hb rfl
  | start read shallow undeclared =>
    obtain ⟨hsound, rfl, hname⟩ := sound_readStartTag hl shallow read
    refine hsound.turn shallow ?_
    rw [hname, String.toList_ofList]
    exact fun he => undeclared (head?_of_head?_nameOf he)

theorem sound_readTurn {leading : String} {current : OpenTag} {level : Nat} {s : List Char} {x : Step Turn s}
    (hl : Text.allBlank leading = true) (hd : level ≤ maxDepth) (h : readTurn leading current level s = .ok x) :
    x.value.Sound leading current.name level :=
  (turnRead_of_readTurn h).sound hl hd

/-- The open elements `o :: outer` are sound, each at its level, and each admits the one inside it. -/
def StackSound (o : OpenTag) : List OpenTag → Prop
  | [] => o.Sound 1
  | p :: outer => o.Sound (outer.length + 2) ∧ o.name.toList.head? ≠ some '!' ∧ p.Admits o.leading ∧ StackSound p outer

namespace StackSound

variable {o : OpenTag} {outer : List OpenTag}

theorem sound (h : StackSound o outer) : o.Sound (outer.length + 1) := by
  cases outer with
  | nil => exact h
  | cons p outer => exact h.1

/-- Its content is all that changes in an open element. -/
theorem replace (h : StackSound o outer) {o' : OpenTag} (ho : o'.Sound (outer.length + 1)) (hn : o'.name = o.name)
    (hl : o'.leading = o.leading) : StackSound o' outer := by
  cases outer with
  | nil => exact ho
  | cons p outer =>
    obtain ⟨-, hname, ha, hp⟩ := h
    exact ⟨ho, by rwa [hn], by rwa [hl], hp⟩

end StackSound

theorem takeText_name (o : OpenTag) (text : List Char) : (o.takeText text).1.name = o.name := by
  unfold OpenTag.takeText
  split <;> rfl

theorem takeText_leading (o : OpenTag) (text : List Char) : (o.takeText text).1.leading = o.leading := by
  unfold OpenTag.takeText
  split <;> rfl

theorem bracket_not_mem_takeWhile (s : List Char) : '<' ∉ s.takeWhile (· ≠ '<') := fun hm => by
  simpa using List.mem_takeWhile_imp hm

/-- The text in front of the next bracket, and the turn there. -/
theorem StackSound.turn {current : OpenTag} {outer : List OpenTag} {s : List Char}
    {x : Step Turn (s.dropWhile (· ≠ '<'))} (hs : StackSound current outer)
    (hr : ∀ c ∈ current.items.head?, c.isText = false)
    (h : readTurn (current.takeText (s.takeWhile (· ≠ '<'))).2 current (outer.length + 1) _ = .ok x) :
    StackSound (current.takeText (s.takeWhile (· ≠ '<'))).1 outer ∧
      (current.takeText (s.takeWhile (· ≠ '<'))).1.Admits (current.takeText (s.takeWhile (· ≠ '<'))).2 ∧
      x.value.Sound (current.takeText (s.takeWhile (· ≠ '<'))).2 current.name (outer.length + 1) := by
  obtain ⟨ho, hb, ha⟩ := hs.sound.takeText hr (bracket_not_mem_takeWhile s)
  exact ⟨hs.replace ho (takeText_name _ _) (takeText_leading _ _), ha, sound_readTurn hb hs.sound.bound h⟩

/-- Between two turns the open elements are sound, and the innermost does not end in text. -/
theorem sound_readContent {current : OpenTag} {outer : List OpenTag} {s rest : List Char} {tag : Tag}
    (hs : StackSound current outer) (hr : ∀ c ∈ current.items.head?, c.isText = false)
    (h : readContent current outer s = .ok (tag, rest)) :
    tag.Sound ∧ (∀ u ∈ Content.elementsBody tag.content, u.Normal) ∧ tag.depth ≤ maxDepth := by
  fun_induction readContent current outer s with
  | case1 | case2 => cases h
  | case3 current s s₁ _ _ taken turn _ closing hc =>
    rename_i ht
    obtain ⟨hs, ha, hturn⟩ := hs.turn hr ht
    rw [hc] at hturn
    obtain ⟨hn, hl⟩ := hturn
    -- the closing tag of the outermost element ends the reading
    have hdepth : 1 + (taken.1.close closing).depth ≤ maxDepth + 1 := hs.sound.depth_close closing
    cases h
    refine ⟨hs.sound.close ?_ ?_, hs.sound.elements_close closing, by omega⟩
    · rwa [takeText_name]
    · rwa [hl]
  | case4 current s s₁ _ _ taken turn _ closing parent outer hc =>
    rename_i ht ih
    obtain ⟨hs, ha, hturn⟩ := hs.turn hr ht
    rw [hc] at hturn
    obtain ⟨hn, hl⟩ := hturn
    obtain ⟨ho, hname, hadmits, hp⟩ := hs
    -- the element that ends here becomes an item of the one around it
    have hclose := ho.close (by rwa [takeText_name]) (by rwa [hl])
    have hdepth : outer.length + 2 + (taken.1.close closing).depth ≤ maxDepth + 1 := ho.depth_close closing
    refine ih (hp.replace (hp.sound.push ⟨trivial, rfl, rfl, fun u hu => ?_, ?_⟩ hadmits) rfl rfl) ?_ h
    · obtain rfl | ⟨items, hi, hu⟩ := Tag.mem_elements_iff.1 hu
      · exact Tag.normal_iff_sound.2 ⟨hclose, hname⟩
      · exact ho.elements_close closing u (Content.mem_elementsBody_iff.2 ⟨items, hi, hu⟩)
    · rw [Content.depth]
      omega
    · rintro c ⟨⟩
      rfl
  | case5 current s s₁ _ _ taken turn _ item outer hc =>
    rename_i ht ih
    obtain ⟨hs, ha, hturn⟩ := hs.turn hr ht
    rw [hc] at hturn
    refine ih (hs.replace (hs.sound.push hturn ha) rfl rfl) ?_ h
    rintro c ⟨⟩
    exact hturn.notText
  | case6 current s s₁ _ _ taken turn _ inner outer hc =>
    rename_i ht ih
    obtain ⟨hs, ha, hturn⟩ := hs.turn hr ht
    rw [hc] at hturn
    obtain ⟨hsound, hitems, hl, hn⟩ := hturn
    refine ih ⟨hsound, hn, by rwa [hl], hs⟩ ?_ h
    rw [hitems]
    rintro c ⟨⟩

theorem sound_readRoot {leading : String} {s rest : List Char} {tag : Tag} (hl : Text.allBlank leading = true)
    (h : readRoot leading s = .ok (tag, rest)) :
    tag.Sound ∧ (∀ u ∈ Content.elementsBody tag.content, u.Normal) ∧ tag.depth ≤ maxDepth := by
  obtain ⟨started, hs, hcase⟩ := startTag_of_readRoot h
  have hsound : started.value.Sound 0 := (sound_readStartTag hl (by decide) hs).1
  obtain ⟨hw, rfl⟩ | ⟨o, ho, hread⟩ := hcase
  · rw [hw] at hsound
    obtain ⟨ht, hc⟩ := hsound
    refine ⟨ht, fun u hu => ?_, ?_⟩
    · rw [hc] at hu
      cases hu
    · obtain ⟨_, _, _, _, _, content, _, _⟩ := tag
      obtain rfl : content = none := hc
      rw [Tag.depth, Content.depthBody]
      decide
  · rw [ho] at hsound
    obtain ⟨ht, hi⟩ := hsound
    refine sound_readContent (show StackSound o [] from ht) ?_ hread
    rw [hi]
    rintro c ⟨⟩

theorem MiscRead.normal {leading : String} {s rest : List Char} {m : Misc} (h : MiscRead leading s m rest)
    (hl : Text.allBlank leading = true) : m.Normal := by
  cases h with
  | comment read => exact (normal_readComment hl read).1
  | instruction read => exact (normal_readInstruction hl read).1
  | docType read => exact normal_readDocType hl read

theorem normal_readMisc {leading : String} {s : List Char} {x : Step Misc s} (hl : Text.allBlank leading = true)
    (h : readMisc leading s = .ok (some x)) : x.value.Normal ∧ x.value.isDocType = false := by
  obtain ⟨read, hd⟩ := miscRead_of_readMisc h
  exact ⟨read.normal hl, hd⟩

theorem normal_readPrologItem {leading : String} {s : List Char} {x : Step Misc s}
    (hl : Text.allBlank leading = true) (h : readPrologItem leading s = .ok (some x)) : x.value.Normal :=
  (miscRead_of_readPrologItem h).normal hl

/-- Where no item begins, no comment and no document type does. -/
theorem after?_of_readPrologItem {leading : String} {s : List Char} (h : readPrologItem leading s = .ok none) :
    Text.after? ['<', '!', '-', '-'] s = none ∧ Text.after? "<!DOCTYPE".toList s = none := by
  unfold readPrologItem at h
  split at h
  · exact absurd h ne_ok_none_of_bind
  next hd => exact ⟨(after?_of_readMisc h).1, hd⟩

theorem normal_readPrologItems {read : List Misc} {s : List Char} {misc : List Misc} {before : String}
    {rest : List Char} (hr : ∀ m ∈ read, m.Normal) (h : readPrologItems read s = .ok (misc, before, rest)) :
    (∀ m ∈ misc, m.Normal) ∧ Text.allBlank before = true ∧ readPrologItem before rest = .ok none := by
  fun_induction readPrologItems read s with
  | case1 => cases h
  | case2 read s leading hn =>
    obtain ⟨rfl, rfl, rfl⟩ : read.reverse = misc ∧ leading = before ∧ afterBlanks s = rest := by simpa using h
    exact ⟨fun m hm => hr m (List.mem_reverse.1 hm), allBlank_blanksOf s, hn⟩
  | case3 read s leading item hi _ ih =>
    refine ih (fun m hm => ?_) h
    obtain rfl | hm := List.mem_cons.1 hm
    · exact normal_readPrologItem (allBlank_blanksOf s) hi
    · exact hr m hm

theorem normal_readEpilog {read : List Misc} {s : List Char} {misc : List Misc} {eof : String}
    (hr : ∀ m ∈ read, m.Normal ∧ m.isDocType = false) (h : readEpilog read s = .ok (misc, eof)) :
    (∀ m ∈ misc, m.Normal ∧ m.isDocType = false) ∧ Text.allBlank eof = true := by
  fun_induction readEpilog read s with
  | case1 read s leading hb =>
    obtain ⟨rfl, rfl⟩ : read.reverse = misc ∧ leading = eof := by simpa using h
    exact ⟨fun m hm => hr m (List.mem_reverse.1 hm), allBlank_blanksOf s⟩
  | case2 | case3 => cases h
  | case4 read s leading _ item hi _ ih =>
    refine ih (fun m hm => ?_) h
    obtain rfl | hm := List.mem_cons.1 hm
    · exact normal_readMisc (allBlank_blanksOf s) hi
    · exact hr m hm

theorem normal_readDeclaration {s rest : List Char} {d : Declaration}
    (h : readDeclaration? s = .ok (some d, rest)) : d.Normal := by
  unfold readDeclaration? at h
  dsimp only at h
  split at h
  · cases h
  next r hr =>
  obtain ⟨found, hf, he⟩ := bind_eq_ok.1 h
  have hs : ∀ c ∈ r.head?, isNameEnd c = true := by
    intro c hc
    have hp := (Option.filter_eq_some_iff.1 hr).2
    cases r with
    | nil => cases hc
    | cons c r =>
      cases hc
      rcases Bool.or_eq_true_iff.1 hp with hb | hq
      · exact isNameEnd_of_isBlank hb
      · rw [eq_of_beq hq]
        rfl
  obtain ⟨ha, hfirst, hb⟩ := normal_readDeclarationEnd (fun _ => hs) (fun _ hm => absurd hm List.not_mem_nil)
    (fun _ hm => nomatch hm) hf
  cases he
  exact ⟨allBlank_blanksOf s, ha, hfirst, hb⟩

theorem of_readDeclaration_eq_none {s rest : List Char} (h : readDeclaration? s = .ok (none, rest)) :
    rest = s ∧ afterDeclarationStart? (afterBlanks s) = none := by
  unfold readDeclaration? at h
  dsimp only at h
  split at h
  next hn =>
    cases h
    exact ⟨rfl, hn⟩
  · obtain ⟨_, _, he⟩ := bind_eq_ok.1 h
    cases he

/-- An instruction that looks like a declaration begins as one does. -/
theorem Misc.LooksLikeDeclaration.afterDeclarationStart? {m : Misc} (h : m.LooksLikeDeclaration) (rest : List Char) :
    ∃ r, Emend.Markup.afterDeclarationStart? (m.body rest) = some r := by
  cases m with
  | comment c => cases h
  | docType d => cases h
  | instruction i =>
    obtain ⟨ht, hc⟩ := h
    have he : (Misc.instruction i).body rest = "<?xml".toList ++ (i.content.toList ++ '?' :: '>' :: rest) := by
      change '<' :: '?' :: (i.target.toList ++ (i.content.toList ++ '?' :: '>' :: rest)) = _
      rw [ht]
      rfl
    have hhead : ∃ c ∈ (i.content.toList ++ '?' :: '>' :: rest).head?, Text.isBlank c = true ∨ c = '?' := by
      cases hi : i.content.toList with
      | nil => exact ⟨'?', rfl, .inr rfl⟩
      | cons c s => exact ⟨c, rfl, hc c (by rw [hi]; rfl)⟩
    exact ⟨_, he ▸ afterDeclarationStart?_of_head hhead⟩

/-- The root's name begins as its text does. -/
theorem startsWith_name_eq_false {t : Tag} {selfClosing : Bool} {r p s : List Char} {leading : String}
    (hl : Text.allBlank leading = true) (ht : Text.allBlank t.leading = true)
    (h : leading.toList ++ '<' :: s = t.leading.toList ++ '<' :: t.startTagText selfClosing r)
    (hn : Text.after? ('<' :: p) ('<' :: s) = none) : Text.startsWith t.name.toList p = false := by
  have hs := congrArg afterBlanks h
  rw [afterBlanks_append hl (isBlank_head_of_bracket rfl), afterBlanks_append ht (isBlank_head_of_bracket rfl)] at hs
  rw [hs, Text.after?_eq_none_iff] at hn
  rw [Text.startsWith, Option.isSome_eq_false_iff, Option.isNone_iff_eq_none, Text.after?_eq_none_iff]
  intro x hx
  obtain ⟨y, hy⟩ : ∃ y, t.startTagText selfClosing r = t.name.toList ++ y := ⟨_, rfl⟩
  exact hn (x ++ y) (by rw [hy, hx, List.append_assoc, List.cons_append])

theorem fields_of_readDocument {path : FilePath} {kind : SourceKind} {s : List Char} {d : Document}
    (h : readDocument path kind s = .ok d) : d.path = path ∧ d.kind = kind ∧ d.markers = [] := by
  unfold readDocument at h
  obtain ⟨_, _, h⟩ := bind_eq_ok.1 h
  obtain ⟨_, _, h⟩ := bind_eq_ok.1 h
  dsimp only at h
  split at h
  · cases h
  split at h
  · cases h
  obtain ⟨_, _, h⟩ := bind_eq_ok.1 h
  obtain ⟨_, _, h⟩ := bind_eq_ok.1 h
  cases h
  exact ⟨rfl, rfl, rfl⟩

/-- The first item of a prolog without declaration would have been read as one. -/
theorem not_looksLikeDeclaration {s rest : List Char} {misc : List Misc} {leading : String}
    (hd : afterDeclarationStart? (afterBlanks s) = none) (hn : ∀ m ∈ misc, m.Normal)
    (h : readPrologItems [] s = .ok (misc, leading, rest)) : ∀ m ∈ misc.head?, ¬m.LooksLikeDeclaration := by
  intro m hm hlooks
  obtain ⟨ms, rfl⟩ := List.head?_eq_some_iff.1 hm
  have e : s = (printMisc (m :: ms)).toList ++ (leading.toList ++ rest) := text_readPrologItems h
  rw [toList_printMisc, List.flatMap_cons, List.append_assoc, Misc.toList_print_append] at e
  have hl := (hn m List.mem_cons_self).leading
  obtain ⟨r, hr⟩ := hlooks.afterDeclarationStart? (List.flatMap (·.print.toList) ms ++ (leading.toList ++ rest))
  rw [e, afterBlanks_append hl (isBlank_head_of_bracket (m.head?_body _)), hr] at hd
  cases hd

theorem readable_of_readDocument {path : FilePath} {s : List Char} {d : Document}
    (h : readDocument path (kindAt path) s = .ok d) : d.Readable := by
  obtain ⟨hpath, hkind, hmarkers⟩ := fields_of_readDocument h
  obtain ⟨-, s₁, leading, s₂, s₃, hd, hm, hr, he⟩ := of_readDocument_eq_ok h
  obtain ⟨hmisc, hl, hn⟩ := normal_readPrologItems (fun _ hm => absurd hm List.not_mem_nil) hm
  obtain ⟨hepilog, heof⟩ := normal_readEpilog (fun _ hm => absurd hm List.not_mem_nil) he
  obtain ⟨hroot, hinner, hdepth⟩ := sound_readRoot hl hr
  obtain ⟨hc, ht⟩ := after?_of_readPrologItem hn
  obtain ⟨_, _, hp, -⟩ := d.root.readRoot_print hroot hinner hdepth s₃
  rw [← text_readRoot hr] at hp
  refine ⟨?_, hmarkers, fun x hx => ?_, hmisc, fun hnone => ?_, fun t hu => ?_, fun t hu => ?_,
    startsWith_name_eq_false hl hroot.leading hp hc, startsWith_name_eq_false hl hroot.leading hp ht, hdepth,
    hepilog, heof⟩
  · rw [hpath, hkind]
  · rw [Option.mem_def.1 hx] at hd
    exact normal_readDeclaration hd
  · rw [hnone] at hd
    obtain ⟨rfl, hstart⟩ := of_readDeclaration_eq_none hd
    exact not_looksLikeDeclaration hstart hmisc hm
  · obtain rfl | ⟨items, hi, hu⟩ := Tag.mem_elements_iff.1 hu
    · exact hroot
    · exact (hinner t (Content.mem_elementsBody_iff.2 ⟨items, hi, hu⟩)).sound
  · exact (hinner t hu).noDeclaration

/-- Parsing what a readable document prints gives back that document, up to ids. -/
theorem parse_print_of_readable {d : Document} (h : d.Readable) (ids : Supply) :
    ∃ d' ids', (Document.parse d.path d.print).run.run ids = (.ok d', ids') ∧ d'.anonymous = d.anonymous := by
  have hr := h.readDocument
  rw [h.kind] at hr
  refine ⟨(d.anonymous.number.run ids).1, (d.anonymous.number.run ids).2, run_parse_eq_ok_iff.2 ⟨_, hr, rfl⟩, ?_⟩
  rw [Document.anonymous_number, Document.anonymous_anonymous]

/-- A document that was parsed is a readable one that was given ids. -/
theorem exists_readable_of_parse {path : FilePath} {source : String} {ids ids' : Supply} {d : Document}
    (h : (Document.parse path source).run.run ids = (.ok d, ids')) :
    ∃ read : Document, read.Readable ∧ read.path = path ∧ d.anonymous = read.anonymous := by
  obtain ⟨read, hr, hd⟩ := run_parse_eq_ok_iff.1 h
  have hn := read.anonymous_number ids
  rw [hd] at hn
  exact ⟨read, readable_of_readDocument hr, (fields_of_readDocument hr).1, hn⟩

end Emend.Markup
