import Emend.Proofs.Markup.Fidelity
import Emend.Proofs.Text.Finding

/-! # Where faults lie

Every fault lies at a place in the text that was read, in front of what it is about: the construct that does not end,
the tag that is not closed, or what stands there in place of something else.
-/

namespace Emend.Markup

open Text (Step)

def Cause.mark : Cause → List Char
  | openDeclaration => "<?xml".toList
  | openComment => "<!--".toList
  | openInstruction | expectedTarget => ['<', '?']
  | openCdata => "<![CDATA[".toList
  | openDocType => "<!DOCTYPE".toList
  | markupInValue key => key.toList
  | openStartTag name | unclosed name => '<' :: name.toList
  | openClosingTag name | mismatched _ name => '<' :: '/' :: name.toList
  | declarationInElement => ['<', '!']
  | expectedElementName | nestedTooDeep => ['<']
  | missingRoot | expectedRoot | contentAfterRoot | openValue | expectedAttributeName | expectedBlank |
    expectedEquals _ | expectedQuote _ => []

/-- How the text goes on at a fault. -/
def Cause.Fits : Cause → List Char → Prop
  | missingRoot, s => s = []
  | expectedRoot, s => s ≠ [] ∧ (s.head? = some '<' → ['<', '/'] <+: s)
  | contentAfterRoot, s => (∃ c t, s = c :: t ∧ Text.isBlank c = false) ∧ ¬"<!--".toList <+: s ∧ ¬"<?".toList <+: s
  | expectedAttributeName, s => ∃ c t, s = c :: t ∧ isNameEnd c = true ∧ Text.isBlank c = false
  | expectedBlank, s => ∃ c t, s = c :: t ∧ Text.isBlank c = false ∧ c ≠ '>'
  | expectedEquals _, s => s.head? ≠ some '='
  | expectedQuote _, s => ∀ c ∈ s.head?, Quote.ofChar? c = none
  | openValue, s => nameOf s ≠ [] ∧ ∃ front quote behind, s = front ++ Quote.char quote :: behind ∧ quote.char ∉ behind
  | cause, s => cause.mark <+: s

theorem Cause.Fits.mark {cause : Cause} {s : List Char} (h : cause.Fits s) : cause.mark <+: s := by
  cases cause with
  | missingRoot | expectedRoot | contentAfterRoot | expectedAttributeName | expectedBlank | expectedEquals |
    expectedQuote | openValue => exact List.nil_prefix
  | _ => exact h

/-- The fault lies in `source`, where the text goes on as it says. -/
def Fault.LiesIn (f : Fault) (source : List Char) : Prop :=
  ∃ rest, rest <:+ source ∧ f.cause.Fits rest ∧ f.remaining = Text.size rest

section

variable {source start s : List Char} {f : Fault}

theorem liesIn_of_faultAt {α : Type} {cause : Cause} (h : (faultAt cause s : Except Fault α) = .error f)
    (hs : s <:+ source) (fits : cause.Fits s) : f.LiesIn source := by
  cases h
  exact ⟨s, hs, fits, rfl⟩

theorem Fault.LiesIn.mono (h : f.LiesIn s) (hs : s <:+ source) : f.LiesIn source := by
  obtain ⟨rest, hr, hm, hl⟩ := h
  exact ⟨rest, hr.trans hs, hm, hl⟩

theorem suffix_afterName (s : List Char) : afterName s <:+ s := List.dropWhile_suffix _

theorem suffix_afterBlanks (s : List Char) : afterBlanks s <:+ s := List.dropWhile_suffix _

theorem suffix_of_afterBlanks {t : List Char} (h : afterBlanks s = t) : t <:+ s := h ▸ suffix_afterBlanks s

theorem prefix_nameOf (s : List Char) : (String.ofList (nameOf s)).toList <+: s := by
  rw [String.toList_ofList]
  exact List.takeWhile_prefix _

/-- What a reader leaves is the end of what it was given. -/
theorem suffix_of_text {α : Type} {l p : List Char} {x : Step α s} (h : l ++ s = p ++ x.rest) : x.rest <:+ s :=
  List.suffix_of_suffix_length_le ⟨p, h.symm⟩ ⟨l, rfl⟩ (Nat.le_of_lt x.shorter)

theorem suffix_behindBlanks {α : Type} {l p : List Char} {x : Step α (afterBlanks s)}
    (h : l ++ afterBlanks s = p ++ x.rest) : x.rest <:+ s :=
  (suffix_of_text h).trans (suffix_afterBlanks s)

theorem prefix_of_after? {p r : List Char} (h : Text.after? p s = some r) : p <+: s :=
  ⟨r, (Text.after?_eq_some_iff.1 h).symm⟩

theorem exists_cons_afterBlanks (h : afterBlanks s ≠ []) :
    ∃ c t, afterBlanks s = c :: t ∧ Text.isBlank c = false := by
  obtain ⟨c, t, shown⟩ := List.exists_cons_of_ne_nil h
  refine ⟨c, t, shown, ?_⟩
  have solid := List.head_dropWhile_not Text.isBlank h
  unfold afterBlanks at shown
  simpa only [shown, List.head_cons] using solid

theorem liesIn_readAttribute {leading : String} (begins : ∃ c t, s = c :: t ∧ Text.isBlank c = false)
    (h : readAttribute leading s = .error f) : f.LiesIn s := by
  unfold readAttribute at h
  split at h
  next unnamed =>
    obtain ⟨c, t, rfl, solid⟩ := begins
    have ends : isNameEnd c = true := by
      by_contra inside
      simp [nameOf, inside] at unnamed
    exact liesIn_of_faultAt h (List.suffix_refl _) ⟨c, t, rfl, ends, solid⟩
  next named =>
  have behind := suffix_afterName s
  split at h
  case h_2 other =>
    refine liesIn_of_faultAt h ((suffix_afterBlanks _).trans behind) fun equals => ?_
    obtain ⟨t, shown⟩ := List.head?_eq_some_iff.1 equals
    exact other t shown
  next s₁ h₁ =>
  have inside : afterBlanks s₁ <:+ s :=
    (suffix_afterBlanks s₁).trans (((List.suffix_cons '=' s₁).trans (suffix_of_afterBlanks h₁)).trans behind)
  split at h
  · exact liesIn_of_faultAt h List.nil_suffix nofun
  next c s₂ h₂ =>
  rw [h₂] at inside
  split at h
  next unquoted => exact liesIn_of_faultAt h inside (Text.forall_head_cons unquoted)
  next quote quoted =>
  split at h
  next unended =>
    obtain ⟨front, whole⟩ := inside
    rw [← Quote.char_of_ofChar? quoted] at whole
    have alone := Text.not_mem_of_breakOn?_eq_none (Text.readUntil_eq_none_iff.1 unended)
    exact liesIn_of_faultAt h (List.suffix_refl s) ⟨named, front, quote, s₂, whole.symm, alone⟩
  split at h
  · exact liesIn_of_faultAt h (List.suffix_refl s) (prefix_nameOf s)
  · cases h

theorem liesIn_readStartTagEnd {name : String} {read : List Attribute} (hstart : start <:+ source)
    (hname : '<' :: name.toList <+: start) (hs : s <:+ source) (h : readStartTagEnd name start read s = .error f) :
    f.LiesIn source := by
  fun_induction readStartTagEnd name start read s with
  | case1 | case2 => cases h
  | case3 => exact liesIn_of_faultAt h hstart hname
  | case4 read s _ _ _ open_ more =>
    obtain ⟨c, t, shown, solid⟩ := exists_cons_afterBlanks more
    refine liesIn_of_faultAt h ((suffix_afterBlanks s).trans hs) ⟨c, t, shown, solid, ?_⟩
    rintro rfl
    exact open_ t shown
  | case5 read s _ _ _ _ _ more ha =>
    cases h
    exact (liesIn_readAttribute (exists_cons_afterBlanks more) ha).mono ((suffix_afterBlanks s).trans hs)
  | case6 read s _ _ _ _ _ a =>
    rename_i ha _ ih
    exact ih ((suffix_behindBlanks (text_readAttribute ha)).trans hs) (map_eq_error.1 h)

theorem liesIn_readDeclarationEnd {read : List Attribute} (hstart : start <:+ source)
    (hmark : "<?xml".toList <+: start) (hs : s <:+ source) (h : readDeclarationEnd start read s = .error f) :
    f.LiesIn source := by
  fun_induction readDeclarationEnd start read s with
  | case1 => cases h
  | case2 => exact liesIn_of_faultAt h hstart hmark
  | case3 read s _ _ _ more ha =>
    cases h
    exact (liesIn_readAttribute (exists_cons_afterBlanks more) ha).mono ((suffix_afterBlanks s).trans hs)
  | case4 read s _ _ _ a =>
    rename_i ha _ ih
    exact ih ((suffix_behindBlanks (text_readAttribute ha)).trans hs) (map_eq_error.1 h)

theorem liesIn_readComment {leading : String} (hstart : start <:+ source) (hmark : "<!--".toList <+: start)
    (h : readComment leading start s = .error f) : f.LiesIn source := by
  unfold readComment at h
  split at h
  · exact liesIn_of_faultAt h hstart hmark
  · cases h

theorem liesIn_readCdata {leading : String} (hstart : start <:+ source) (hmark : "<![CDATA[".toList <+: start)
    (h : readCdata leading start s = .error f) : f.LiesIn source := by
  unfold readCdata at h
  split at h
  · exact liesIn_of_faultAt h hstart hmark
  · cases h

theorem liesIn_readInstruction {leading : String} (hstart : start <:+ source) (hmark : ['<', '?'] <+: start)
    (h : readInstruction leading start s = .error f) : f.LiesIn source := by
  unfold readInstruction at h
  split at h
  · exact liesIn_of_faultAt h hstart hmark
  split at h
  · exact liesIn_of_faultAt h hstart hmark
  · cases h

theorem liesIn_readDocType {leading : String} (hstart : start <:+ source) (hmark : "<!DOCTYPE".toList <+: start)
    (h : readDocType leading start s = .error f) : f.LiesIn source := by
  unfold readDocType at h
  split at h
  · exact liesIn_of_faultAt h hstart hmark
  · cases h

theorem liesIn_readClosing {leading expected : String} (hstart : '<' :: '/' :: s <:+ source)
    (h : readClosing leading expected ('<' :: '/' :: s) s = .error f) : f.LiesIn source := by
  have hmark : '<' :: '/' :: (String.ofList (nameOf s)).toList <+: '<' :: '/' :: s :=
    (List.prefix_append_right_inj ['<', '/']).2 (prefix_nameOf s)
  unfold readClosing at h
  dsimp only at h
  split at h
  · split at h
    · cases h
    · exact liesIn_of_faultAt h hstart hmark
  · exact liesIn_of_faultAt h hstart hmark

/-- The open element begins in `source`, with its name. -/
structure OpenTag.StandsIn (o : OpenTag) (source : List Char) : Prop where
  place : o.start <:+ source
  name : '<' :: o.name.toList <+: o.start

theorem OpenTag.StandsIn.push {o : OpenTag} (h : o.StandsIn source) (item : Content) : (o.push item).StandsIn source :=
  ⟨h.place, h.name⟩

theorem OpenTag.StandsIn.takeText {o : OpenTag} (h : o.StandsIn source) (text : List Char) :
    (o.takeText text).1.StandsIn source := by
  unfold OpenTag.takeText
  split
  · exact h
  · exact h.push _

theorem prefix_tagName (s : List Char) : '<' :: (String.ofList (nameOf s)).toList <+: '<' :: s :=
  (List.prefix_append_right_inj ['<']).2 (prefix_nameOf s)

theorem liesIn_readStartTag {leading : String} (hstart : '<' :: s <:+ source)
    (h : readStartTag leading ('<' :: s) s = .error f) : f.LiesIn source := by
  unfold readStartTag at h
  dsimp only at h
  split at h
  · exact liesIn_of_faultAt h hstart ⟨s, rfl⟩
  split at h
  next hf =>
    cases h
    exact liesIn_readStartTagEnd hstart (prefix_tagName s)
      ((suffix_afterName s).trans ((List.suffix_cons '<' s).trans hstart)) hf
  · cases h

theorem standsIn_readStartTag {leading : String} {x : Step Started s} {o : OpenTag} (hstart : '<' :: s <:+ source)
    (h : readStartTag leading ('<' :: s) s = .ok x) (ho : x.value = .opened o) : o.StandsIn source := by
  obtain ⟨-, found, -, hx, -⟩ := of_readStartTag_eq_ok h
  rw [hx, startedTag] at ho
  split at ho
  · cases ho
  · cases ho
    exact ⟨hstart, prefix_tagName s⟩

theorem liesIn_readTurn {leading : String} {current : OpenTag} {depth : Nat} (hs : s <:+ source)
    (hb : ['<'] <+: s) (hc : current.StandsIn source) (h : readTurn leading current depth s = .error f) :
    f.LiesIn source := by
  unfold readTurn at h
  split at h
  next r hr =>
    obtain rfl : s = '<' :: '/' :: r := Text.after?_eq_some_iff.1 hr
    exact liesIn_readClosing hs (error_of_bind_pure h)
  split at h
  next r hr =>
    exact liesIn_readComment hs (prefix_of_after? hr) (error_of_bind_pure h)
  split at h
  next r hr =>
    exact liesIn_readCdata hs (prefix_of_after? hr) (error_of_bind_pure h)
  split at h
  next r hr =>
    exact liesIn_readInstruction hs (prefix_of_after? hr) (error_of_bind_pure h)
  split at h
  next hd => exact liesIn_of_faultAt h hs (Text.after?_isSome_iff.1 hd)
  split at h
  · exact liesIn_of_faultAt h hs hb
  split at h
  · exact liesIn_of_faultAt h hc.place hc.name
  next r hr =>
    obtain rfl : s = '<' :: r := Text.after?_eq_some_iff.1 hr
    exact liesIn_readStartTag hs (error_of_bind_pure h)

theorem Started.eq_opened_of_turn {x : Started} {o : OpenTag} (h : x.turn = .enter o) : x = .opened o := by
  cases x with
  | whole t => cases h
  | opened o' =>
    cases h
    rfl

/-- An element that is opened begins at the bracket. -/
theorem TurnRead.standsIn {leading : String} {current o : OpenTag} {depth : Nat} {rest : List Char} {turn : Turn}
    (h : TurnRead leading current depth s turn rest) (hs : s <:+ source) (ho : turn = .enter o) :
    o.StandsIn source := by
  cases h with
  | close | comment | cdata | instruction => cases ho
  | start read => exact standsIn_readStartTag hs read (Started.eq_opened_of_turn ho)

/-- A turn leaves the end of what the content began with. -/
theorem suffix_turn {leading : String} {current : OpenTag} {depth : Nat} {x : Step Turn (s.dropWhile (· ≠ '<'))}
    (h : readTurn leading current depth (s.dropWhile (· ≠ '<')) = .ok x) : x.rest <:+ s :=
  (suffix_of_text (text_readTurn h)).trans (List.dropWhile_suffix _)

theorem prefix_dropWhile_bracket (h : s.dropWhile (· ≠ '<') ≠ []) : ['<'] <+: s.dropWhile (· ≠ '<') := by
  obtain ⟨c, t, ht⟩ := List.exists_cons_of_ne_nil h
  have stop := List.head_dropWhile_not (· ≠ '<') h
  simp only [ht, List.head_cons, decide_eq_false_iff_not, not_not] at stop
  rw [ht, stop]
  exact ⟨t, rfl⟩

theorem liesIn_readContent {current : OpenTag} {outer : List OpenTag} (hs : s <:+ source) (hc : current.StandsIn source)
    (ho : ∀ o ∈ outer, o.StandsIn source) (h : readContent current outer s = .error f) : f.LiesIn source := by
  fun_induction readContent current outer s with
  | case1 => exact liesIn_of_faultAt h hc.place hc.name
  | case2 current outer s s₁ _ hb _ _ ht =>
    cases h
    exact liesIn_readTurn ((List.dropWhile_suffix _).trans hs) (prefix_dropWhile_bracket hb) hc ht
  | case3 => cases h
  | case4 current s s₁ _ _ taken turn _ closing parent outer =>
    rename_i ht ih
    obtain ⟨hp, ho⟩ := List.forall_mem_cons.1 ho
    exact ih ((suffix_turn ht).trans hs) (hp.push _) ho h
  | case5 current s s₁ _ _ taken turn _ item outer =>
    rename_i ht ih
    exact ih ((suffix_turn ht).trans hs) ((hc.takeText _).push item) ho h
  | case6 current s s₁ _ _ taken turn _ inner outer hv =>
    rename_i ht ih
    have opened := (turnRead_of_readTurn ht).standsIn ((List.dropWhile_suffix _).trans hs) hv
    exact ih ((suffix_turn ht).trans hs) opened (List.forall_mem_cons.2 ⟨hc.takeText _, ho⟩) h

theorem suffix_readContent {current : OpenTag} {outer : List OpenTag} {tag : Tag} {rest : List Char}
    (h : readContent current outer s = .ok (tag, rest)) : rest <:+ s := by
  fun_induction readContent current outer s with
  | case1 | case2 => cases h
  | case3 =>
    rename_i ht
    cases h
    exact suffix_turn ht
  | case4 | case5 | case6 =>
    rename_i ht ih
    exact (ih h).trans (suffix_turn ht)

theorem suffix_readStartTag {leading : String} {x : Step Started s}
    (h : readStartTag leading ('<' :: s) s = .ok x) : x.rest <:+ s := by
  refine suffix_of_text (l := leading.toList ++ ['<']) (p := x.value.text) ?_
  rw [List.append_assoc]
  exact text_readStartTag h

theorem liesIn_readRoot {leading : String} (hs : '<' :: s <:+ source) (h : readRoot leading ('<' :: s) = .error f) :
    f.LiesIn source := by
  unfold readRoot at h
  split at h
  next hf =>
    cases h
    exact liesIn_readStartTag hs hf
  next started hf =>
  split at h
  · cases h
  next o ho =>
    have rest : started.rest <:+ source := (suffix_readStartTag hf).trans ((List.suffix_cons '<' s).trans hs)
    exact liesIn_readContent rest (standsIn_readStartTag hs hf ho) (List.forall_mem_nil _) h

theorem suffix_readRoot {leading : String} {tag : Tag} {rest : List Char}
    (h : readRoot leading ('<' :: s) = .ok (tag, rest)) : rest <:+ s := by
  obtain ⟨started, hs, ⟨-, rfl⟩ | ⟨o, -, hc⟩⟩ := startTag_of_readRoot h
  · exact suffix_readStartTag hs
  · exact (suffix_readContent hc).trans (suffix_readStartTag hs)

theorem liesIn_readMisc {leading : String} (hs : s <:+ source) (h : readMisc leading s = .error f) :
    f.LiesIn source := by
  unfold readMisc at h
  split at h
  next hr =>
    exact liesIn_readComment hs (prefix_of_after? hr) (error_of_bind_pure h)
  split at h
  next hr =>
    exact liesIn_readInstruction hs (prefix_of_after? hr) (error_of_bind_pure h)
  · cases h

theorem liesIn_readPrologItem {leading : String} (hs : s <:+ source) (h : readPrologItem leading s = .error f) :
    f.LiesIn source := by
  unfold readPrologItem at h
  split at h
  next hr =>
    exact liesIn_readDocType hs (prefix_of_after? hr) (error_of_bind_pure h)
  · exact liesIn_readMisc hs h

theorem liesIn_readPrologItems {read : List Misc} (hs : s <:+ source) (h : readPrologItems read s = .error f) :
    f.LiesIn source := by
  fun_induction readPrologItems read s with
  | case1 read s _ _ he =>
    cases h
    exact liesIn_readPrologItem ((suffix_afterBlanks s).trans hs) he
  | case2 => cases h
  | case3 read s _ item hi _ ih =>
    exact ih ((suffix_behindBlanks (text_readPrologItem hi)).trans hs) h

theorem suffix_readPrologItems {misc : List Misc} {before : String} {rest : List Char}
    (h : readPrologItems [] s = .ok (misc, before, rest)) : rest <:+ s :=
  ⟨(printMisc misc).toList ++ before.toList, by
    rw [List.append_assoc]
    exact (text_readPrologItems h).symm⟩

theorem not_prefix_of_after? {p : List Char} (h : Text.after? p s = none) : ¬p <+: s := by
  rw [← Text.after?_isSome_iff, h]
  exact Bool.false_ne_true

theorem liesIn_readEpilog {read : List Misc} (hs : s <:+ source) (h : readEpilog read s = .error f) :
    f.LiesIn source := by
  fun_induction readEpilog read s with
  | case1 => cases h
  | case2 read s _ _ _ he =>
    cases h
    exact liesIn_readMisc ((suffix_afterBlanks s).trans hs) he
  | case3 read s _ more none =>
    obtain ⟨noComment, noInstruction⟩ := after?_of_readMisc none
    exact liesIn_of_faultAt h ((suffix_afterBlanks s).trans hs)
      ⟨exists_cons_afterBlanks more, not_prefix_of_after? noComment, not_prefix_of_after? noInstruction⟩
  | case4 read s _ _ item hi _ ih =>
    exact ih ((suffix_behindBlanks (text_readMisc hi)).trans hs) h

theorem liesIn_readDeclaration (hs : s <:+ source) (h : readDeclaration? s = .error f) : f.LiesIn source := by
  unfold readDeclaration? at h
  dsimp only at h
  split at h
  · cases h
  next r hr =>
    have e := eq_of_afterDeclarationStart? hr
    have place := (suffix_afterBlanks s).trans hs
    exact liesIn_readDeclarationEnd place ⟨r, e.symm⟩ (.trans ⟨_, e.symm⟩ place) (error_of_bind_pure h)

/-- Every fault lies in the text. -/
theorem liesIn_readDocument {path : FilePath} {kind : SourceKind} (h : readDocument path kind source = .error f) :
    f.LiesIn source := by
  unfold readDocument at h
  have hb : (if source.head? == some '\ufeff' then source.drop 1 else source) <:+ source := by
    split
    · exact List.drop_suffix 1 source
    · exact List.suffix_refl source
  obtain h | ⟨⟨declaration, s₁⟩, hd, h⟩ := bind_eq_error.1 h
  · exact liesIn_readDeclaration hb h
  have h₁ : s₁ <:+ source := List.IsSuffix.trans ⟨_, (text_readDeclaration hd).symm⟩ hb
  obtain h | ⟨⟨misc, leading, s₂⟩, hm, h⟩ := bind_eq_error.1 h
  · exact liesIn_readPrologItems h₁ h
  have h₂ : s₂ <:+ source := (suffix_readPrologItems hm).trans h₁
  dsimp only at h
  split at h
  next ended => exact liesIn_of_faultAt h h₂ ended
  next more =>
  split at h
  next noRoot =>
    refine liesIn_of_faultAt h h₂ ⟨more, fun bracket => ?_⟩
    obtain ⟨t, rfl⟩ := List.head?_eq_some_iff.1 bracket
    have open_ : Text.startsWith ('<' :: t) ['<'] = true := rfl
    rw [open_, Bool.not_true, Bool.false_or] at noRoot
    exact Text.after?_isSome_iff.1 noRoot
  next hb =>
  obtain ⟨s₂, rfl⟩ := exists_root_bracket hb
  obtain h | ⟨⟨root, s₃⟩, hr, h⟩ := bind_eq_error.1 h
  · exact liesIn_readRoot h₂ h
  have h₃ : s₃ <:+ source := (suffix_readRoot hr).trans ((List.suffix_cons '<' s₂).trans h₂)
  obtain h | ⟨⟨epilog, eof⟩, _, h⟩ := bind_eq_error.1 h
  · exact liesIn_readEpilog h₃ h
  · cases h

end

end Emend.Markup
