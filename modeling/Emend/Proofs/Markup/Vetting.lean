import Emend.Proofs.Markup.Lawful
import Emend.Proofs.Markup.Readable

/-! # No node that is read is refused

Reading in which every node has to pass its own check at the moment it is made, as if it was made by hand. Such
reading comes to the same as reading without the checks (`vetDocument_eq`): whatever the text is, it stops at a fault
of the text or not at all.
-/

namespace Emend.Markup

open Text (Step length_dropWhile_le)

/-- Why reading stopped: the text is at fault, or a node in it breaks its own rule. -/
inductive Stop where
  | fault (f : Fault)
  | refused (v : Violation)

section Vetting

variable {α : Type} {s : List Char}

def pass (check : Check) (a : α) : Except Stop α :=
  match check with
  | .ok () => .ok a
  | .error v => .error (.refused v)

def vetted (check : α → Check) : Except Fault (Step α s) → Except Stop (Step α s)
  | .error f => .error (.fault f)
  | .ok x => pass (check x.value) x

def vettedItem (check : α → Check) : Except Fault (Option (Step α s)) → Except Stop (Option (Step α s))
  | .error f => .error (.fault f)
  | .ok none => .ok none
  | .ok (some x) => pass (check x.value) (some x)

theorem pass_of_ok {check : Check} (h : check = .ok ()) (a : α) : pass check a = .ok a := by rw [h, pass]

theorem vetted_eq {check : α → Check} {read : Except Fault (Step α s)}
    (h : ∀ x, read = .ok x → check x.value = .ok ()) : vetted check read = read.mapError .fault := by
  cases read with
  | error f => rfl
  | ok x => exact pass_of_ok (h x rfl) x

theorem vettedItem_eq {check : α → Check} {read : Except Fault (Option (Step α s))}
    (h : ∀ x, read = .ok (some x) → check x.value = .ok ()) : vettedItem check read = read.mapError .fault := by
  match read with
  | .error f => rfl
  | .ok none => rfl
  | .ok (some x) => exact pass_of_ok (h x rfl) (some x)

variable {ε δ β : Type}

theorem mapError_map (f : α → β) (g : ε → δ) (x : Except ε α) : (x.map f).mapError g = (x.mapError g).map f := by
  cases x <;> rfl

/-- Two computations that go on alike with what was read. -/
theorem mapError_bind_congr {g : ε → δ} {x : Except ε α} {f : α → Except δ β} {f' : α → Except ε β}
    (h : ∀ a, x = .ok a → f a = (f' a).mapError g) : x.mapError g >>= f = (x >>= f').mapError g := by
  cases x with
  | error e => rfl
  | ok a => exact h a rfl

end Vetting

theorem Misc.Normal.lawful {m : Misc} (h : m.Normal) : m.Lawful := by
  cases m with
  | comment c => exact Comment.Normal.terminator h
  | instruction i => exact Instruction.Normal.terminator h
  | docType d => trivial

theorem Content.NormalLeaf.lawful {c : Content} (h : c.NormalLeaf) : c.LawfulLeaf := by
  cases c with
  | tag t => trivial
  | charData d =>
    change if d.cdata then d.NormalCdata else d.NormalText at h
    change if d.cdata then _ else _
    split at h
    next hc =>
      rw [if_pos hc]
      exact h.terminator
    next hc =>
      rw [if_neg hc]
      exact h.markup
  | comment c => exact Comment.Normal.terminator h
  | instruction i => exact Instruction.Normal.terminator h

theorem NormalBody.lawful {name : String} {content : Option (List Content)} {closing : Option Closing}
    (h : NormalBody name content closing) : LawfulBody name content closing := by
  match content, closing, h with
  | none, none, _ => trivial
  | some items, some closing, ⟨leaves, _, hc⟩ => exact ⟨hc.name, fun c hm => (leaves c hm).lawful⟩

theorem Tag.Sound.lawful {t : Tag} (h : t.Sound) : t.Lawful :=
  ⟨fun a ha => (h.attributes a ha).1.quote, h.body.lawful⟩

theorem kindAt_isA_xml (path : FilePath) : (kindAt path).isA .xml = true := by
  unfold kindAt
  cases SourceKind.classify path <;> rfl

theorem Document.Readable.lawful {d : Document} (h : d.Readable) : d.Lawful where
  kind := by
    rw [h.kind]
    exact kindAt_isA_xml d.path
  eof := h.eof
  declaration x hx a ha := ((h.declaration x hx).attributes a ha).quote
  misc m hm := (h.misc m hm).lawful
  epilog m hm := (h.epilog m hm).1.lawful
  elements t ht := (h.elements t ht).lawful

theorem LawfulBody.checkBody_eq_ok {name : String} {content : Option (List Content)} {closing : Option Closing}
    (h : LawfulBody name content closing) : checkBody name content closing = .ok () := by
  match content, closing, h with
  | none, none, _ => rfl
  | some items, some closing, ⟨hn, _⟩ => exact Violation.when_eq_ok.2 (bne_eq_false_iff_eq.2 hn)

def vetAttribute (leading : String) (s : List Char) : Except Stop (Step Attribute s) :=
  vetted Attribute.check (readAttribute leading s)

/-- In a start tag that has the attributes in `read`, another one begins behind the blanks of `s`. -/
def attributeBegins (read : List Attribute) (s : List Char) : Bool :=
  match afterBlanks s with
  | '/' :: '>' :: _ | '>' :: _ | [] => false
  | _ => !((String.ofList (blanksOf s)).isEmpty && !read.isEmpty)

def vetStartTagEnd (name : String) (start : List Char) (read : List Attribute) (s : List Char) :
    Except Stop (Step StartTagEnd s) :=
  if attributeBegins read s then do
    let a ← vetAttribute (String.ofList (blanksOf s)) (afterBlanks s)
    have := Nat.lt_of_lt_of_le a.shorter (length_afterBlanks_le s)
    (vetStartTagEnd name start (a.value :: read) a.rest).map (·.widen (Nat.le_of_lt this))
  else (readStartTagEnd name start read s).mapError .fault
termination_by s.length

/-- In a declaration another attribute begins behind the blanks of `s`. -/
def declarationGoesOn (s : List Char) : Bool :=
  match afterBlanks s with
  | '?' :: '>' :: _ | [] => false
  | _ => true

def vetDeclarationEnd (start : List Char) (read : List Attribute) (s : List Char) :
    Except Stop (Step (List Attribute × String) s) :=
  if declarationGoesOn s then do
    let a ← vetAttribute (String.ofList (blanksOf s)) (afterBlanks s)
    have := Nat.lt_of_lt_of_le a.shorter (length_afterBlanks_le s)
    (vetDeclarationEnd start (a.value :: read) a.rest).map (·.widen (Nat.le_of_lt this))
  else (readDeclarationEnd start read s).mapError .fault
termination_by s.length

def Tag.checkMade (t : Tag) : Check := checkBody t.name t.content t.closing

/-- An element that stays open is not made yet. -/
def Started.check : Started → Check
  | whole tag => tag.checkMade
  | opened _ => .ok ()

def vetStartTag (leading : String) (start s : List Char) : Except Stop (Step Started s) :=
  if nameOf s = [] then (readStartTag leading start s).mapError .fault
  else do
    let _ ← vetStartTagEnd (String.ofList (nameOf s)) start [] (afterName s)
    vetted Started.check (readStartTag leading start s)

theorem vetAttribute_eq (s₀ s : List Char) :
    vetAttribute (String.ofList (blanksOf s₀)) s = (readAttribute (String.ofList (blanksOf s₀)) s).mapError .fault :=
  vetted_eq fun _ h => Attribute.check_eq_ok.2 (normal_readAttribute (allBlank_blanksOf s₀) h).1.quote

theorem readStartTagEnd_of_attributeBegins (name : String) (start : List Char) {read : List Attribute} {s : List Char}
    (h : attributeBegins read s = true) :
    readStartTagEnd name start read s = (do
      let a ← readAttribute (String.ofList (blanksOf s)) (afterBlanks s)
      (readStartTagEnd name start (a.value :: read) a.rest).map
        (·.widen (Nat.le_of_lt (Nat.lt_of_lt_of_le a.shorter (length_afterBlanks_le s))))) := by
  rw [readStartTagEnd]
  split
  next he => simp [attributeBegins, he] at h
  next he => simp [attributeBegins, he] at h
  next he => simp [attributeBegins, he] at h
  next =>
    have apart : (!((String.ofList (blanksOf s)).isEmpty && !read.isEmpty)) = true := by
      simpa only [attributeBegins] using h
    rw [if_neg (by simpa only [Bool.not_eq_true', Bool.not_eq_true] using apart)]
    cases readAttribute (String.ofList (blanksOf s)) (afterBlanks s) <;> rfl

theorem readDeclarationEnd_of_declarationGoesOn (start : List Char) (read : List Attribute) {s : List Char}
    (h : declarationGoesOn s = true) :
    readDeclarationEnd start read s = (do
      let a ← readAttribute (String.ofList (blanksOf s)) (afterBlanks s)
      (readDeclarationEnd start (a.value :: read) a.rest).map
        (·.widen (Nat.le_of_lt (Nat.lt_of_lt_of_le a.shorter (length_afterBlanks_le s))))) := by
  rw [readDeclarationEnd]
  split
  next he => simp [declarationGoesOn, he] at h
  next he => simp [declarationGoesOn, he] at h
  next => cases readAttribute (String.ofList (blanksOf s)) (afterBlanks s) <;> rfl

theorem vetStartTagEnd_eq (name : String) (start : List Char) (read : List Attribute) (s : List Char) :
    vetStartTagEnd name start read s = (readStartTagEnd name start read s).mapError .fault := by
  fun_induction vetStartTagEnd name start read s with
  | case1 read s begins ih =>
    rw [readStartTagEnd_of_attributeBegins name start begins, vetAttribute_eq]
    apply mapError_bind_congr
    intro a _
    rw [ih a, mapError_map]
  | case2 => rfl

theorem vetDeclarationEnd_eq (start : List Char) (read : List Attribute) (s : List Char) :
    vetDeclarationEnd start read s = (readDeclarationEnd start read s).mapError .fault := by
  fun_induction vetDeclarationEnd start read s with
  | case1 read s goes_on ih =>
    rw [readDeclarationEnd_of_declarationGoesOn start read goes_on, vetAttribute_eq]
    apply mapError_bind_congr
    intro a _
    rw [ih a, mapError_map]
  | case2 => rfl

theorem check_readStartTag {leading : String} {start s : List Char} {x : Step Started s}
    (hl : Text.allBlank leading = true) (h : readStartTag leading start s = .ok x) : x.value.check = .ok () := by
  obtain ⟨hsound, -⟩ := sound_readStartTag hl (show 0 < maxDepth by decide) h
  cases hx : x.value with
  | opened o => rfl
  | whole t =>
    rw [hx] at hsound
    exact hsound.1.lawful.body.checkBody_eq_ok

theorem vetStartTag_eq {leading : String} (hl : Text.allBlank leading = true) (start s : List Char) :
    vetStartTag leading start s = (readStartTag leading start s).mapError .fault := by
  unfold vetStartTag
  split
  · rfl
  next hn =>
    have vetted_tag := vetted_eq fun x (h : readStartTag leading start s = .ok x) => check_readStartTag hl h
    rw [vetStartTagEnd_eq, vetted_tag]
    cases hf : readStartTagEnd (String.ofList (nameOf s)) start [] (afterName s) with
    | error f =>
      simp only [readStartTag, if_neg hn, hf]
      rfl
    | ok found => rfl

/-- A start tag begins here, in the content of the innermost of `depth` open elements. -/
def startTagBegins (depth : Nat) : List Char → Bool
  | '<' :: c :: _ => c != '/' && c != '?' && c != '!' && decide (depth < maxDepth)
  | _ => false

def Content.checkMade : Content → Check
  | tag t => t.checkMade
  | c => c.checkLeaf

def Turn.check : Turn → Check
  | item i => i.checkMade
  | close _ | enter _ => .ok ()

def vetTurn (leading : String) (current : OpenTag) (depth : Nat) (s : List Char) : Except Stop (Step Turn s) := do
  if startTagBegins depth s then
    let _ ← vetStartTag leading s (s.drop 1)
  vetted Turn.check (readTurn leading current depth s)

/-- A run of text that is an item is made before what follows it is read. -/
def vetText (o : OpenTag) (text : List Char) : Except Stop (OpenTag × String) :=
  if text.all Text.isBlank then .ok (o.takeText text)
  else pass (CharData.check { id := .none, leading := "", cdata := false, text := String.ofList text })
    (o.takeText text)

def vetClose (o : OpenTag) (closing : Closing) : Except Stop Tag :=
  pass (o.close closing).checkMade (o.close closing)

def vetContent (current : OpenTag) (outer : List OpenTag) (s : List Char) : Except Stop (Tag × List Char) :=
  if s.dropWhile (· ≠ '<') = [] then .error (.fault ⟨.unclosed current.name, Text.size current.start⟩)
  else do
    let taken ← vetText current (s.takeWhile (· ≠ '<'))
    let turn ← vetTurn taken.2 current (outer.length + 1) (s.dropWhile (· ≠ '<'))
    have := Nat.lt_of_lt_of_le turn.shorter (length_dropWhile_le (· ≠ '<') s)
    match turn.value, outer with
    | .close closing, [] => return (← vetClose taken.1 closing, turn.rest)
    | .close closing, parent :: outer => do
      let tag ← vetClose taken.1 closing
      vetContent (parent.push (.tag tag)) outer turn.rest
    | .item item, outer => vetContent (taken.1.push item) outer turn.rest
    | .enter tag, outer => vetContent tag (taken.1 :: outer) turn.rest
termination_by s.length

def vetRoot (leading : String) (s : List Char) : Except Stop (Tag × List Char) := do
  let started ← vetStartTag leading s (s.drop 1)
  match started.value with
  | .whole tag => return (tag, started.rest)
  | .opened tag => vetContent tag [] started.rest

theorem Turn.Sound.check {leading name : String} {level : Nat} {x : Turn} (h : x.Sound leading name level) :
    x.check = .ok () := by
  cases x with
  | close c => rfl
  | enter o => rfl
  | item i =>
    cases i with
    | tag t => exact (h.elements t t.mem_elements_self).sound.lawful.body.checkBody_eq_ok
    | charData _ | comment _ | instruction _ => exact Content.checkLeaf_eq_ok.2 h.leaf.lawful

theorem of_startTagBegins {depth : Nat} {s : List Char} (h : startTagBegins depth s = true) :
    ∃ c r, s = '<' :: c :: r ∧ c ≠ '/' ∧ c ≠ '?' ∧ c ≠ '!' ∧ depth < maxDepth := by
  unfold startTagBegins at h
  split at h
  next c r =>
    simp only [Bool.and_eq_true, bne_iff_ne, decide_eq_true_eq] at h
    obtain ⟨⟨⟨hs, hi⟩, hm⟩, hd⟩ := h
    exact ⟨c, r, rfl, hs, hi, hm, hd⟩
  · cases h

theorem vetTurn_eq {leading : String} {current : OpenTag} {level : Nat} {s : List Char}
    (hl : Text.allBlank leading = true) (hd : level ≤ maxDepth) :
    vetTurn leading current level s = (readTurn leading current level s).mapError .fault := by
  have vetted_turn := vetted_eq fun x (h : readTurn leading current level s = .ok x) => (sound_readTurn hl hd h).check
  unfold vetTurn
  split
  next begins =>
    -- the start tag is read again as the turn, which goes wrong just where it does
    obtain ⟨c, r, rfl, hs, hi, hm, hlevel⟩ := of_startTagBegins begins
    rw [vetted_turn, vetStartTag_eq hl, readTurn_eq_readStartTag leading current r hs hi hm hlevel, List.drop_one,
      List.tail_cons]
    cases readStartTag leading ('<' :: c :: r) (c :: r) <;> rfl
  next => exact vetted_turn

theorem vetText_eq (o : OpenTag) {text : List Char} (h : '<' ∉ text) : vetText o text = .ok (o.takeText text) := by
  unfold vetText
  split
  · rfl
  · refine pass_of_ok (CharData.check_eq_ok.2 ?_) _
    change '<' ∉ (String.ofList text).toList
    rwa [String.toList_ofList]

theorem vetClose_eq {o : OpenTag} {closing : Closing} (h : closing.name = o.name) :
    vetClose o closing = .ok (o.close closing) :=
  pass_of_ok (Violation.when_eq_ok.2 (bne_eq_false_iff_eq.2 h)) _

theorem allBlank_takeText (o : OpenTag) (text : List Char) : Text.allBlank (o.takeText text).2 = true := by
  unfold OpenTag.takeText
  split
  next hb => rwa [Text.allBlank, String.toList_ofList]
  next => rfl

section Content

variable {current : OpenTag} {outer : List OpenTag} {s : List Char}

theorem vetContent_of_error {e : Fault} (hd : outer.length < maxDepth) (hs : s.dropWhile (· ≠ '<') ≠ [])
    (h : readTurn (current.takeText (s.takeWhile (· ≠ '<'))).2 current (outer.length + 1) (s.dropWhile (· ≠ '<')) =
      .error e) :
    vetContent current outer s = .error (.fault e) := by
  rw [vetContent, if_neg hs, vetText_eq current (bracket_not_mem_takeWhile s)]
  change vetTurn _ _ _ _ >>= _ = _
  rw [vetTurn_eq (allBlank_takeText _ _) hd, h]
  rfl

/-- The turn at the next bracket is taken with the text in front of it. -/
theorem vetContent_of_turn {turn : Step Turn (s.dropWhile (· ≠ '<'))} (hd : outer.length < maxDepth)
    (hs : s.dropWhile (· ≠ '<') ≠ [])
    (h : readTurn (current.takeText (s.takeWhile (· ≠ '<'))).2 current (outer.length + 1) (s.dropWhile (· ≠ '<')) =
      .ok turn) :
    vetContent current outer s =
      (match turn.value, outer with
      | .close closing, [] =>
        vetClose (current.takeText (s.takeWhile (· ≠ '<'))).1 closing >>= fun tag => pure (tag, turn.rest)
      | .close closing, parent :: outer =>
        vetClose (current.takeText (s.takeWhile (· ≠ '<'))).1 closing >>= fun tag =>
          vetContent (parent.push (.tag tag)) outer turn.rest
      | .item item, outer => vetContent ((current.takeText (s.takeWhile (· ≠ '<'))).1.push item) outer turn.rest
      | .enter tag, outer => vetContent tag ((current.takeText (s.takeWhile (· ≠ '<'))).1 :: outer) turn.rest) := by
  rw [vetContent, if_neg hs, vetText_eq current (bracket_not_mem_takeWhile s)]
  change vetTurn _ _ _ _ >>= _ = _
  rw [vetTurn_eq (allBlank_takeText _ _) hd, h]
  obtain ⟨value, rest, shorter⟩ := turn
  cases value <;> cases outer <;> rfl

theorem sound_turn {turn : Step Turn (s.dropWhile (· ≠ '<'))} (hd : outer.length < maxDepth)
    (h : readTurn (current.takeText (s.takeWhile (· ≠ '<'))).2 current (outer.length + 1) (s.dropWhile (· ≠ '<')) =
      .ok turn) :
    turn.value.Sound (current.takeText (s.takeWhile (· ≠ '<'))).2 current.name (outer.length + 1) :=
  sound_readTurn (allBlank_takeText _ _) hd h

/-- Between two turns as many elements are open as may be. -/
theorem vetContent_eq (hd : outer.length < maxDepth) :
    vetContent current outer s = (readContent current outer s).mapError .fault := by
  fun_induction readContent current outer s with
  | case1 current outer s _ _ hs =>
    rw [vetContent, if_pos hs]
    rfl
  | case2 current outer s _ _ hs _ e hturn => exact vetContent_of_error hd hs hturn
  | case3 current s _ _ hs taken turn _ closing hvalue hturn =>
    rw [vetContent_of_turn hd hs hturn, hvalue]
    dsimp only
    -- a closing tag that was read has the name of its element, so the check of the closed element passes
    have sound := sound_turn hd hturn
    rw [hvalue] at sound
    rw [vetClose_eq (sound.1.name.trans (takeText_name _ _).symm)]
    rfl
  | case4 current s _ _ hs taken turn _ closing parent outer hvalue hturn ih =>
    rw [vetContent_of_turn hd hs hturn, hvalue]
    dsimp only
    have sound := sound_turn hd hturn
    rw [hvalue] at sound
    rw [vetClose_eq (sound.1.name.trans (takeText_name _ _).symm)]
    exact ih (Nat.lt_of_succ_lt hd)
  | case5 current s _ _ hs taken turn _ item outer hvalue hturn ih =>
    rw [vetContent_of_turn hd hs hturn, hvalue]
    exact ih hd
  | case6 current s _ _ hs taken turn _ tag outer hvalue hturn ih =>
    rw [vetContent_of_turn hd hs hturn, hvalue]
    have sound := sound_turn hd hturn
    rw [hvalue] at sound
    exact ih sound.1.bound

theorem vetRoot_eq {leading : String} (hl : Text.allBlank leading = true) (s : List Char) :
    vetRoot leading s = (readRoot leading s).mapError .fault := by
  rw [vetRoot, readRoot, vetStartTag_eq hl]
  cases readStartTag leading s (s.drop 1) with
  | error f => rfl
  | ok started =>
    obtain ⟨value, rest, _⟩ := started
    cases value with
    | whole tag => rfl
    | opened tag => exact vetContent_eq (show [].length < maxDepth by decide)

end Content

def vetPrologItems (read : List Misc) (s : List Char) : Except Stop (List Misc × String × List Char) := do
  let leading := String.ofList (blanksOf s)
  match ← vettedItem Misc.check (readPrologItem leading (afterBlanks s)) with
  | none => return (read.reverse, leading, afterBlanks s)
  | some item =>
    have := Nat.lt_of_lt_of_le item.shorter (length_afterBlanks_le s)
    vetPrologItems (item.value :: read) item.rest
termination_by s.length

def vetEpilog (read : List Misc) (s : List Char) : Except Stop (List Misc × String) := do
  let leading := String.ofList (blanksOf s)
  if afterBlanks s = [] then return (read.reverse, leading)
  else
    match ← vettedItem Misc.check (readMisc leading (afterBlanks s)) with
    | none => .error (.fault ⟨.contentAfterRoot, Text.size (afterBlanks s)⟩)
    | some item =>
      have := Nat.lt_of_lt_of_le item.shorter (length_afterBlanks_le s)
      vetEpilog (item.value :: read) item.rest
termination_by s.length

def vetDeclaration? (s : List Char) : Except Stop (Option Declaration × List Char) := do
  match afterDeclarationStart? (afterBlanks s) with
  | none => return (none, s)
  | some r =>
    let _ ← vetDeclarationEnd (afterBlanks s) [] r
    (readDeclaration? s).mapError .fault

/-- A document is made last: it has to be of a markup kind, and only blanks may end it. -/
def vetDocument (path : FilePath) (kind : SourceKind) (s : List Char) : Except Stop Document := do
  let bom := s.head? == some '\ufeff'
  let (declaration, s₁) ← vetDeclaration? (if bom then s.drop 1 else s)
  let (misc, leading, s₂) ← vetPrologItems [] s₁
  if s₂ = [] then .error (.fault ⟨.missingRoot, Text.size s₂⟩)
  else if !Text.startsWith s₂ ['<'] || Text.startsWith s₂ ['<', '/'] then .error (.fault ⟨.expectedRoot, Text.size s₂⟩)
  else
    let (root, s₃) ← vetRoot leading s₂
    let (epilog, eof) ← vetEpilog [] s₃
    pass ((Violation.notMarkupKind kind).when (!kind.isA .xml)) ()
    pass (Violation.eofNotBlank.when (!Text.allBlank eof)) {
      id := .none
      path
      kind
      markers := []
      bom
      prolog := { id := .none, declaration, misc }
      root
      epilog
      eof }

theorem vetPrologItem_eq {leading : String} (hl : Text.allBlank leading = true) (s : List Char) :
    vettedItem Misc.check (readPrologItem leading s) = (readPrologItem leading s).mapError .fault :=
  vettedItem_eq fun _ h => Misc.check_eq_ok.2 (normal_readPrologItem hl h).lawful

theorem vetMisc_eq {leading : String} (hl : Text.allBlank leading = true) (s : List Char) :
    vettedItem Misc.check (readMisc leading s) = (readMisc leading s).mapError .fault :=
  vettedItem_eq fun _ h => Misc.check_eq_ok.2 (normal_readMisc hl h).1.lawful

theorem vetPrologItems_eq (read : List Misc) (s : List Char) :
    vetPrologItems read s = (readPrologItems read s).mapError .fault := by
  fun_induction readPrologItems read s with
  | case1 read s leading e he =>
    rw [vetPrologItems, vetPrologItem_eq (allBlank_blanksOf s), he]
    rfl
  | case2 read s leading hn =>
    rw [vetPrologItems, vetPrologItem_eq (allBlank_blanksOf s), hn]
    rfl
  | case3 read s leading item hi _ ih =>
    rw [vetPrologItems, vetPrologItem_eq (allBlank_blanksOf s), hi]
    exact ih

theorem vetEpilog_eq (read : List Misc) (s : List Char) :
    vetEpilog read s = (readEpilog read s).mapError .fault := by
  fun_induction readEpilog read s with
  | case1 read s leading hs =>
    rw [vetEpilog, if_pos hs]
    rfl
  | case2 read s leading hs e he =>
    rw [vetEpilog, if_neg hs, vetMisc_eq (allBlank_blanksOf s), he]
    rfl
  | case3 read s leading hs hn =>
    rw [vetEpilog, if_neg hs, vetMisc_eq (allBlank_blanksOf s), hn]
    rfl
  | case4 read s leading hs item hi _ ih =>
    rw [vetEpilog, if_neg hs, vetMisc_eq (allBlank_blanksOf s), hi]
    exact ih

theorem vetDeclaration?_eq (s : List Char) : vetDeclaration? s = (readDeclaration? s).mapError .fault := by
  unfold vetDeclaration?
  cases hr : afterDeclarationStart? (afterBlanks s) with
  | none =>
    rw [readDeclaration?_eq_none hr]
    rfl
  | some r =>
    dsimp only
    rw [vetDeclarationEnd_eq]
    cases hf : readDeclarationEnd (afterBlanks s) [] r with
    | ok found => rfl
    | error f =>
      simp only [readDeclaration?, hr, hf]
      rfl

/-- Reading in which every node is checked as it is made is reading. -/
theorem vetDocument_eq (path : FilePath) (s : List Char) :
    vetDocument path (kindAt path) s = (readDocument path (kindAt path) s).mapError .fault := by
  unfold vetDocument readDocument
  dsimp only
  rw [vetDeclaration?_eq]
  apply mapError_bind_congr
  rintro ⟨declaration, s₁⟩ _
  dsimp only
  rw [vetPrologItems_eq]
  apply mapError_bind_congr
  rintro ⟨misc, leading, s₂⟩ hm
  obtain ⟨_, blank, _⟩ := normal_readPrologItems (fun _ hm => absurd hm List.not_mem_nil) hm
  dsimp only
  split
  · rfl
  split
  · rfl
  rw [vetRoot_eq blank]
  apply mapError_bind_congr
  rintro ⟨root, s₃⟩ _
  dsimp only
  rw [vetEpilog_eq]
  apply mapError_bind_congr
  rintro ⟨epilog, eof⟩ he
  obtain ⟨_, blank_eof⟩ := normal_readEpilog (fun _ hm => absurd hm List.not_mem_nil) he
  dsimp only
  rw [kindAt_isA_xml, blank_eof]
  rfl

theorem forM_map_check {α : Type} {check : α → Check} {f : α → α} (h : ∀ a, check (f a) = check a) (as : List α) :
    (as.map f).forM check = as.forM check := by
  induction as with
  | nil => rfl
  | cons a as ih =>
    change (do check (f a); (as.map f).forM check) = (do check a; as.forM check)
    rw [h, ih]

theorem Attribute.check_anonymous (a : Attribute) : a.anonymous.check = a.check := rfl

theorem checkAttributes_anonymous (as : List Attribute) :
    checkAttributes (as.map Attribute.anonymous) = checkAttributes as :=
  forM_map_check Attribute.check_anonymous as

theorem Misc.check_anonymous (m : Misc) : m.anonymous.check = m.check := by
  cases m <;> rfl

theorem Content.checkLeaf_anonymous (c : Content) : c.anonymous.checkLeaf = c.checkLeaf := by
  cases c <;> rfl

mutual

theorem Tag.checkAt_anonymous (t : Tag) (depth : Nat) : Tag.checkAt depth t.anonymous = Tag.checkAt depth t := by
  obtain ⟨id, leading, markers, name, attributes, content, closing, beforeClose⟩ := t
  cases content with
  | none =>
    rw [Tag.anonymous, Tag.checkAt, Tag.checkAt, Tag.checkSelf, Tag.checkSelf, checkAttributes_anonymous]
    cases closing <;> rfl
  | some items =>
    have leaves : (Content.anonymousAll items).forM Content.checkLeaf = items.forM Content.checkLeaf := by
      rw [Content.anonymousAll_eq_map]
      exact forM_map_check Content.checkLeaf_anonymous items
    rw [Tag.anonymous, Tag.checkAt, Tag.checkAt, Tag.checkSelf, Tag.checkSelf, checkAttributes_anonymous]
    dsimp only
    rw [leaves, Content.checkTags_anonymousAll items]
    cases closing <;> rfl

theorem Content.checkTags_anonymousAll (items : List Content) (depth : Nat) :
    Content.checkTags depth (Content.anonymousAll items) = Content.checkTags depth items := by
  cases items with
  | nil => rfl
  | cons c cs =>
    cases c with
    | tag t =>
      rw [Content.anonymousAll, Content.anonymous, Content.checkTags, Content.checkTags, t.checkAt_anonymous,
        Content.checkTags_anonymousAll cs]
    | charData _ | comment _ | instruction _ =>
      rw [Content.anonymousAll, Content.anonymous, Content.checkTags, Content.checkTags,
        Content.checkTags_anonymousAll cs]

end

theorem Document.check_anonymous (d : Document) : d.anonymous.check = d.check := by
  obtain ⟨id, path, kind, markers, bom, ⟨pid, declaration, misc⟩, root, epilog, eof⟩ := d
  have prolog : (misc.map Misc.anonymous).forM Misc.check = misc.forM Misc.check :=
    forM_map_check Misc.check_anonymous misc
  have behind : (epilog.map Misc.anonymous).forM Misc.check = epilog.forM Misc.check :=
    forM_map_check Misc.check_anonymous epilog
  rw [Document.check, Document.check, Document.anonymous, Prolog.anonymous]
  dsimp only
  rw [prolog, behind, root.checkAt_anonymous]
  cases declaration with
  | none => rfl
  | some d =>
    rw [Option.map_some, Declaration.anonymous]
    dsimp only
    rw [checkAttributes_anonymous]

theorem check_of_parse {path : FilePath} {source : String} {ids ids' : Supply} {d : Document}
    (h : (Document.parse path source).run.run ids = (.ok d, ids')) : d.check = .ok () := by
  obtain ⟨read, readable, -, same⟩ := exists_readable_of_parse h
  rw [← d.check_anonymous, same, read.check_anonymous]
  exact Document.check_eq_ok.2 ⟨readable.lawful, readable.depth⟩

/-- Parsing ends with an accepted document or with the place of a fault, and no node is refused on the way. -/
theorem parse_total (path : FilePath) (source : String) (ids : Supply) :
    vetDocument path (kindAt path) source.toList = (readDocument path (kindAt path) source.toList).mapError .fault ∧
      ((∃ d ids', (Document.parse path source).run.run ids = (.ok d, ids') ∧ d.check = .ok ()) ∨
        ∃ message line column,
          (Document.parse path source).run.run ids = (.error (.parse path message line column), ids)) := by
  refine ⟨vetDocument_eq path source.toList, ?_⟩
  cases hr : readDocument path (kindAt path) source.toList with
  | ok read =>
    have parsed : (Document.parse path source).run.run ids = (.ok (read.number.run ids).1, (read.number.run ids).2) :=
      run_parse_eq_ok_iff.2 ⟨read, hr, rfl⟩
    exact .inl ⟨_, _, parsed, check_of_parse parsed⟩
  | error f =>
    refine .inr ⟨f.cause.message, (f.position source).1, (f.position source).2, ?_⟩
    rw [Document.parse, hr]
    rfl

end Emend.Markup
