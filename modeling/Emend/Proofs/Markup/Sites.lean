import Emend.Proofs.Markup.Parsed

/-! # Where elements are looked for

A reader of a document looks for an element in front of the root, at every bracket inside an element, and behind the
root. From the second kind of site on, a markup declaration ends the reading. In front of the root it is taken for a
start tag, so that a root element may have a name that no element inside it can have.
-/

namespace Emend.Markup

open Text (Step)

inductive Site where
  /-- At the bracket that the root element begins with; `s` is what stands behind it. -/
  | front (leading : String) (s : List Char)
  /-- In the content of `current`, inside the open elements `outer`. -/
  | inside (current : OpenTag) (outer : List OpenTag) (s : List Char)
  | behind (s : List Char)

namespace Site

def text : Site → List Char
  | front _ s => '<' :: s
  | inside _ _ s => s.dropWhile (· ≠ '<')
  | behind s => afterBlanks s

def behindTurn (o : OpenTag) (outer : List OpenTag) (rest : List Char) : Turn → Site
  | .close closing =>
    match outer with
    | [] => behind rest
    | parent :: outer => inside (parent.push (.tag (o.close closing))) outer rest
  | .item item => inside (o.push item) outer rest
  | .enter tag => inside tag (o :: outer) rest

/-- The reader goes from one site to the next. -/
inductive Next : Site → Site → Prop
  | whole {leading : String} {s rest : List Char} {tag : Tag} :
      Reads (readStartTag leading ('<' :: s) s) (.whole tag) rest → Next (front leading s) (behind rest)
  | opened {leading : String} {s rest : List Char} {o : OpenTag} :
      Reads (readStartTag leading ('<' :: s) s) (.opened o) rest → Next (front leading s) (inside o [] rest)
  | turn {current : OpenTag} {outer : List OpenTag} {s rest : List Char} {turn : Turn} :
      Reads (readTurn (current.takeText (s.takeWhile (· ≠ '<'))).2 current (outer.length + 1)
        (s.dropWhile (· ≠ '<'))) turn rest →
      Next (inside current outer s) (behindTurn (current.takeText (s.takeWhile (· ≠ '<'))).1 outer rest turn)
  | misc {s rest : List Char} {m : Misc} :
      Finds (readMisc (String.ofList (blanksOf s)) (afterBlanks s)) m rest → Next (behind s) (behind rest)

/-- Reading on from the site ends in the fault. -/
def Fails (fault : Fault) : Site → Prop
  | front leading s => (readRoot leading ('<' :: s) >>= fun root => readEpilog [] root.2) = .error fault
  | inside current outer s => (readContent current outer s >>= fun root => readEpilog [] root.2) = .error fault
  | behind s => ∀ read, readEpilog read s = .error fault

/-- A markup declaration begins here: nothing that is known to begin so may stand here. -/
def Declares (site : Site) : Prop :=
  Text.startsWith site.text ['<', '!'] = true ∧ Text.startsWith site.text ['<', '!', '-', '-'] = false ∧
    match site with
    | front _ _ => Text.startsWith site.text "<!DOCTYPE".toList = false
    | inside _ _ _ => Text.startsWith site.text "<![CDATA[".toList = false
    | behind _ => True

instance : (site : Site) → Decidable site.Declares
  | front _ _ | inside _ _ _ | behind _ => instDecidableAnd

/-- The fault that a declaration is, behind the first bracket of the root element. -/
def refusal? (site : Site) : Option Fault :=
  match site with
  | front _ _ => none
  | inside _ _ _ => some ⟨.declarationInElement, Text.size site.text⟩
  | behind _ => some ⟨.contentAfterRoot, Text.size site.text⟩

end Site

/-- The reader of `source` looks for an element at the site. -/
inductive Reached (source : List Char) : Site → Prop
  | front {declaration : Option Declaration} {misc : List Misc} {leading : String} {s₁ s : List Char} :
      readDeclaration? (if source.head? == some bomChar then source.drop 1 else source) = .ok (declaration, s₁) →
      readPrologItems [] s₁ = .ok (misc, leading, '<' :: s) → s.head? ≠ some '/' → Reached source (.front leading s)
  | next {site site' : Site} : Reached source site → site.Next site' → Reached source site'

theorem readMisc_eq_none {leading : String} {s : List Char} (hc : Text.after? ['<', '!', '-', '-'] s = none)
    (hi : Text.after? ['<', '?'] s = none) : readMisc leading s = .ok none := by
  unfold readMisc
  split
  next e => cases hc.symm.trans e
  split
  next e => cases hi.symm.trans e
  rfl

theorem Finds.ne_nil {leading : String} {s rest : List Char} {m : Misc} (h : Finds (readMisc leading s) m rest) :
    s ≠ [] := by
  rintro rfl
  obtain ⟨_, h⟩ := h
  cases h.symm.trans (readMisc_eq_none rfl rfl)

theorem Reads.ne_nil {α : Type} {s rest : List Char} {x : Except Fault (Step α s)} {a : α} (h : Reads x a rest) :
    s ≠ [] := by
  obtain ⟨shorter, _⟩ := h
  rintro rfl
  exact absurd shorter (Nat.not_lt_zero _)

namespace Site

variable {site site' : Site} {fault : Fault}

/-- Where the reader fails later, it fails. -/
theorem Next.fails (h : site.Next site') (hf : site'.Fails fault) : site.Fails fault := by
  cases h with
  | whole hr =>
    rw [Fails, readRoot_of_whole hr]
    exact hf []
  | opened hr =>
    rw [Fails, readRoot_of_opened hr]
    exact hf
  | @turn current outer s rest turn hr =>
    rw [Fails, readContent_eq_proceed turn rest hr.ne_nil hr]
    cases turn with
    | close closing =>
      cases outer with
      | nil => exact hf []
      | cons parent outer => exact hf
    | item item => exact hf
    | enter tag => exact hf
  | misc hm =>
    intro read
    rw [readEpilog_cons hm.ne_nil hm]
    exact hf _

/-- From every site the reader goes on, unless it fails there or nothing is left behind the root. -/
theorem next_or_fails (site : Site) :
    (∃ site', site.Next site') ∨ (∃ fault, site.Fails fault) ∨ ∃ s, site = behind s ∧ afterBlanks s = [] := by
  cases site with
  | front leading s =>
    cases hr : readStartTag leading ('<' :: s) s with
    | error fault =>
      refine .inr (.inl ⟨fault, ?_⟩)
      have hs : readStartTag leading ('<' :: s) (List.drop 1 ('<' :: s)) = _ := hr
      rw [Fails, readRoot, hs]
      rfl
    | ok started =>
      obtain ⟨value, rest, shorter⟩ := started
      cases value with
      | whole tag => exact .inl ⟨_, .whole ⟨shorter, hr⟩⟩
      | opened o => exact .inl ⟨_, .opened ⟨shorter, hr⟩⟩
  | inside current outer s =>
    by_cases hs : s.dropWhile (· ≠ '<') = []
    · refine .inr (.inl ⟨⟨.unclosed current.name, Text.size current.start⟩, ?_⟩)
      rw [Fails, readContent]
      dsimp only
      rw [if_pos hs]
      rfl
    · cases hr : readTurn (current.takeText (s.takeWhile (· ≠ '<'))).2 current (outer.length + 1)
          (s.dropWhile (· ≠ '<')) with
      | error fault =>
        refine .inr (.inl ⟨fault, ?_⟩)
        rw [Fails, readContent_eq_error hs hr]
        rfl
      | ok turn => exact .inl ⟨_, .turn ⟨turn.shorter, hr⟩⟩
  | behind s =>
    by_cases hs : afterBlanks s = []
    · exact .inr (.inr ⟨s, rfl, hs⟩)
    · cases hm : readMisc (String.ofList (blanksOf s)) (afterBlanks s) with
      | error fault =>
        refine .inr (.inl ⟨fault, fun read => ?_⟩)
        rw [readEpilog, if_neg hs, hm]
      | ok found =>
        cases found with
        -- what is neither blank nor an item may not stand behind the root
        | none =>
          refine .inr (.inl ⟨⟨.contentAfterRoot, Text.size (afterBlanks s)⟩, fun read => ?_⟩)
          rw [readEpilog, if_neg hs, hm]
          rfl
        | some item => exact .inl ⟨_, .misc ⟨item.shorter, hm⟩⟩

theorem Declares.exists_text (h : site.Declares) :
    ∃ s, site.text = '<' :: '!' :: s ∧ Text.after? ['<', '!', '-', '-'] site.text = none := by
  obtain ⟨hd, hc, -⟩ := h
  obtain ⟨s, hs⟩ := Option.isSome_iff_exists.1 hd
  exact ⟨s, Text.after?_eq_some_iff.1 hs, Text.startsWith_eq_false_iff.1 hc⟩

theorem readTurn_declaration {leading : String} {current : OpenTag} {depth : Nat} {s : List Char}
    (hc : Text.after? ['<', '!', '-', '-'] ('<' :: '!' :: s) = none)
    (hs : Text.after? "<![CDATA[".toList ('<' :: '!' :: s) = none) :
    readTurn leading current depth ('<' :: '!' :: s) = faultAt .declarationInElement ('<' :: '!' :: s) := by
  unfold readTurn
  split
  next e => cases e
  split
  next e => cases hc.symm.trans e
  split
  next e => cases hs.symm.trans e
  split
  next e => cases e
  rfl

/-- Inside the root element and behind it a declaration is a fault. -/
theorem Declares.fails (h : site.Declares) (hf : fault ∈ site.refusal?) : site.Fails fault := by
  obtain ⟨s, ht, hc⟩ := h.exists_text
  obtain ⟨-, -, hk⟩ := h
  cases site with
  | front leading s => cases hf
  | inside current outer r =>
    have hs : Text.after? "<![CDATA[".toList (inside current outer r).text = none := Text.startsWith_eq_false_iff.1 hk
    cases hf
    rw [ht] at hc hs
    change r.dropWhile (· ≠ '<') = _ at ht
    rw [Fails, readContent_eq_error]
    · rfl
    · rw [ht]
      exact List.cons_ne_nil _ _
    · rw [ht, readTurn_declaration hc hs, ← ht]
      rfl
  | behind r =>
    cases hf
    intro read
    rw [ht] at hc
    change afterBlanks r = _ at ht
    have hn : readMisc (String.ofList (blanksOf r)) (afterBlanks r) = .ok none := by
      rw [ht]
      exact readMisc_eq_none hc rfl
    rw [readEpilog, if_neg (by rw [ht]; exact List.cons_ne_nil _ _), hn]
    rfl

end Site

theorem readDocument_eq_error {path : FilePath} {kind : SourceKind} {source s₁ s : List Char}
    {declaration : Option Declaration} {misc : List Misc} {leading : String} {fault : Fault}
    (hd : readDeclaration? (if source.head? == some bomChar then source.drop 1 else source) = .ok (declaration, s₁))
    (hm : readPrologItems [] s₁ = .ok (misc, leading, '<' :: s)) (hs : s.head? ≠ some '/')
    (hf : (Site.front leading s).Fails fault) : readDocument path kind source = .error fault := by
  have hc : (!Text.startsWith ('<' :: s) ['<'] || Text.startsWith ('<' :: s) ['<', '/']) ≠ true := by
    cases s with
    | nil => decide
    | cons c s =>
      have hn : '/' ≠ c := fun e => hs (congrArg some e.symm)
      simp [Text.startsWith, Text.after?, hn]
  unfold readDocument
  refine (bind_of_ok hd).trans <| (bind_of_ok hm).trans ?_
  dsimp only
  rw [if_neg (List.cons_ne_nil _ _), if_neg hc]
  rw [Site.Fails] at hf
  cases hr : readRoot leading ('<' :: s) with
  | error e =>
    rw [hr] at hf
    cases hf
    rfl
  | ok root =>
    rw [bind_of_ok hr] at hf
    refine (bind_of_ok rfl).trans ?_
    rw [hf]
    rfl

/-- What a later site fails in, the document does. -/
theorem Reached.readDocument_eq_error {path : FilePath} {kind : SourceKind} {source : List Char} {site : Site}
    {fault : Fault} (h : Reached source site) (hf : site.Fails fault) :
    readDocument path kind source = .error fault := by
  induction h with
  | front hd hm hs => exact Markup.readDocument_eq_error hd hm hs hf
  | next _ hn ih => exact ih (hn.fails hf)

/-- The name of the root element begins behind the bracket at the front, be it a declaration or not. -/
theorem exists_front_of_parse {path : FilePath} {source : String} {ids ids' : Supply} {d : Document}
    (h : (Document.parse path source).run.run ids = (.ok d, ids')) :
    ∃ leading c s, Reached source.toList (.front leading (c :: s)) ∧ d.root.name.toList.head? = some c ∧
      (c = '!' → (Site.front leading (c :: s)).Declares) := by
  obtain ⟨read, read_ok, run⟩ := run_parse_eq_ok_iff.1 h
  have same : d.root.name = read.root.name := by
    have he := congrArg (·.root.name) (read.anonymous_number ids)
    rw [run] at he
    rwa [Document.anonymous, Document.anonymous, Tag.name_anonymous, Tag.name_anonymous] at he
  obtain ⟨hb, s₁, leading, s₂, s₃, hd, hm, hr, -⟩ := of_readDocument_eq_ok read_ok
  obtain ⟨-, hl, hn⟩ := normal_readPrologItems (fun _ hm => absurd hm List.not_mem_nil) hm
  obtain ⟨hroot, hinner, hdepth⟩ := sound_readRoot hl hr
  obtain ⟨selfClosing, r, hp, -⟩ := read.root.readRoot_print hroot hinner hdepth s₃
  -- what was read for the root is what the root prints: a bracket and its name
  rw [← text_readRoot hr] at hp
  have hs := congrArg afterBlanks hp
  rw [afterBlanks_append hl (isBlank_head_of_bracket rfl),
    afterBlanks_append hroot.leading (isBlank_head_of_bracket rfl)] at hs
  obtain ⟨c, s, he, hc, hslash, -⟩ := hroot.exists_cons selfClosing r
  obtain rfl : s₂ = c :: s := (List.cons.inj hs).2.trans he
  refine ⟨leading, c, s, .front (hb ▸ hd) hm ?_, same ▸ hc, ?_⟩
  · rintro ⟨⟩
    exact hslash rfl
  · rintro rfl
    obtain ⟨comment, docType⟩ := after?_of_readPrologItem hn
    exact ⟨rfl, Text.startsWith_eq_false_iff.2 comment, Text.startsWith_eq_false_iff.2 docType⟩

/-- A text that begins with a start tag. -/
theorem Tag.Normal.reached {t : Tag} (h : t.Normal) (selfClosing : Bool) (rest : List Char) :
    Reached ('<' :: t.startTagText selfClosing rest) (.front "" (t.startTagText selfClosing rest)) := by
  obtain ⟨c, s, e, hn, hc, hi⟩ := h.sound.exists_cons selfClosing rest
  have hx : c ≠ '!' := by
    rintro rfl
    exact h.noDeclaration hn
  have hs := isBlank_head_of_bracket (s := '<' :: c :: s) rfl
  have blanks : blanksOf ('<' :: c :: s) = [] := blanksOf_append (b := "") rfl hs
  have behind : afterBlanks ('<' :: c :: s) = '<' :: c :: s := afterBlanks_append (b := "") rfl hs
  have first : readPrologItem (String.ofList (blanksOf ('<' :: c :: s))) (afterBlanks ('<' :: c :: s)) = .ok none := by
    rw [behind]
    exact readPrologItem_eq_none (after?_bracket_eq_none hx.symm _ _) (after?_bracket_eq_none hx.symm _ _)
      (after?_bracket_eq_none hi.symm _ _)
  have items : readPrologItems [] ('<' :: c :: s) = .ok ([], "", '<' :: c :: s) := by
    rw [readPrologItems_end first, blanks, behind]
    rfl
  rw [e]
  refine .front (readDeclaration?_eq_none ?_) items ?_
  · change afterDeclarationStart? (afterBlanks ('<' :: c :: s)) = none
    rw [behind]
    exact afterDeclarationStart?_eq_none hi
  · rintro ⟨⟩
    exact hc rfl

theorem Site.Next.ne_front {site site' : Site} (h : site.Next site') {leading : String} {s : List Char} :
    site' ≠ .front leading s := by
  rintro rfl
  generalize e : Site.front leading s = site' at h
  cases h with
  | whole | opened | misc => cases e
  | @turn _ outer _ _ turn _ =>
    cases turn with
    | close closing => cases outer <;> cases e
    | item item => cases e
    | enter tag => cases e

theorem Reached.front_unique {source s t : List Char} {leading leading' : String}
    (h : Reached source (.front leading s)) (h' : Reached source (.front leading' t)) : s = t := by
  cases h with
  | next _ hn => exact absurd rfl hn.ne_front
  | front hd hm _ =>
  cases h' with
  | next _ hn => exact absurd rfl hn.ne_front
  | front hd' hm' _ =>
  cases hd.symm.trans hd'
  cases hm.symm.trans hm'
  rfl

/-- Behind the first bracket of the root element, a markup declaration is a fault wherever an element is looked for. So
no element inside the root has a name that begins as one; the root has if it stands where a declaration begins. -/
theorem declarations_refused (path : FilePath) (source : String) (ids : Supply) :
    (∀ site, Reached source.toList site → site.Declares → ∀ fault ∈ site.refusal?,
      (Document.parse path source).run.run ids = (.error (fault.toError path source), ids)) ∧
    ∀ d ids', (Document.parse path source).run.run ids = (.ok d, ids') →
      (∀ t ∈ Content.elementsBody d.root.content, t.name.toList.head? ≠ some '!') ∧
      (d.root.name.toList.head? = some '!' ↔
        ∃ leading s, Reached source.toList (.front leading s) ∧ (Site.front leading s).Declares) := by
  constructor
  · intro site reached declares fault hf
    exact run_parse_of_error (reached.readDocument_eq_error (declares.fails hf)) ids
  · intro d ids' parsed
    refine ⟨(readable_of_parse parsed).1.inner, ?_⟩
    obtain ⟨leading, c, s, reached, head, plain⟩ := exists_front_of_parse parsed
    rw [head]
    constructor
    · rintro ⟨⟩
      exact ⟨leading, _, reached, plain rfl⟩
    · rintro ⟨leading', t, reached', declares⟩
      obtain rfl := reached.front_unique reached'
      obtain ⟨r, hr, -⟩ := declares.exists_text
      exact congrArg some (List.cons.inj (List.cons.inj hr).2).1

def declaringText : String := "<a>\n <!e></a>"

def declaringRoot : Tag := ⟨.none, "", [], "a", [], some [], some ⟨.none, "", "a", ""⟩, ""⟩

theorem declarations_refused_declaringText :
    (Document.parse ⟨"a.xml"⟩ declaringText).run.run {} =
        (.error (.parse ⟨"a.xml"⟩ "Unexpected markup declaration in element" 2 2), {}) ∧
      ∃ d ids, (Document.parse ⟨"a.xml"⟩ "<a><e/></a>").run.run {} = (.ok d, ids) ∧
        ∀ t ∈ Content.elementsBody d.root.content, t.name.toList.head? ≠ some '!' := by
  have normal : declaringRoot.Normal := by decide
  have text : declaringText.toList = '<' :: declaringRoot.startTagText false "\n <!e></a>".toList := by decide +kernel
  have reached := (normal.reached false "\n <!e></a>".toList).next (.opened (normal.sound.reads _ false _))
  rw [← text] at reached
  have refused := (declarations_refused ⟨"a.xml"⟩ declaringText {}).1 _ reached (by decide +kernel) _ rfl
  have accepted : ((Document.parse ⟨"a.xml"⟩ "<a><e/></a>").run.run {}).1.toBool = true := by decide +kernel
  obtain ⟨d, parsed⟩ := exists_eq_ok_of_toBool accepted
  have place : (⟨.declarationInElement, 8⟩ : Fault).toError ⟨"a.xml"⟩ declaringText =
      .parse ⟨"a.xml"⟩ "Unexpected markup declaration in element" 2 2 := by decide +kernel
  constructor
  · rw [← place]
    exact refused
  · exact ⟨d, _, parsed, ((declarations_refused ⟨"a.xml"⟩ "<a><e/></a>" {}).2 d _ parsed).1⟩

/-- In front of the root a markup declaration is taken for the root element. -/
theorem declaration_taken_for_root :
    ∃ d ids, (Document.parse ⟨"a.xml"⟩ "<!a/>").run.run {} = (.ok d, ids) ∧ d.root.name = "!a" := by
  have named : ((Document.parse ⟨"a.xml"⟩ "<!a/>").run.run {}).1.toOption.map (·.root.name) = some "!a" := by
    decide +kernel
  have accepted : ((Document.parse ⟨"a.xml"⟩ "<!a/>").run.run {}).1.toBool = true := by decide +kernel
  obtain ⟨d, parsed⟩ := exists_eq_ok_of_toBool accepted
  rw [parsed] at named
  exact ⟨d, _, parsed, Option.some.inj named⟩

end Emend.Markup
