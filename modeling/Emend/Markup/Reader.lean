import Emend.Markup.Fault
import Emend.Text.Blank
import Emend.Text.Step

/-! # Reading markup

One pass over the characters. Blanks in front of a construct become its `leading`; any other run of text
becomes character data; nothing is normalised. Open elements are kept on a stack. The nodes read carry no
ids yet.
-/

namespace Emend.Markup

open Text (Step readUntil length_dropWhile_le length_le_of_after? length_lt_of_after?)

/-- A name ends at a blank and at these. -/
def isNameEnd (c : Char) : Bool := Text.isBlank c || "/>=<?\"'".toList.contains c

def nameOf (s : List Char) : List Char := s.takeWhile (!isNameEnd ·)

def afterName (s : List Char) : List Char := s.dropWhile (!isNameEnd ·)

def blanksOf (s : List Char) : List Char := s.takeWhile Text.isBlank

def afterBlanks (s : List Char) : List Char := s.dropWhile Text.isBlank

theorem length_afterName_le (s : List Char) : (afterName s).length ≤ s.length := length_dropWhile_le _ s

theorem length_afterBlanks_le (s : List Char) : (afterBlanks s).length ≤ s.length := length_dropWhile_le _ s

theorem length_le_of_afterBlanks {s t : List Char} (h : afterBlanks s = t) : t.length ≤ s.length :=
  h ▸ length_afterBlanks_le s

theorem length_lt_of_afterBlanks {s t : List Char} {c : Char} (h : afterBlanks s = c :: t) : t.length < s.length :=
  length_le_of_afterBlanks h

def Quote.ofChar? : Char → Option Quote
  | '"' => some .double
  | '\'' => some .single
  | _ => none

def readAttribute (leading : String) (s : List Char) : Except Fault (Step Attribute s) :=
  let key := String.ofList (nameOf s)
  if nameOf s = [] then faultAt .expectedAttributeName s
  else
    match h₁ : afterBlanks (afterName s) with
    | '=' :: s₁ =>
      match h₂ : afterBlanks s₁ with
      | [] => faultAt (.expectedQuote key) []
      | c :: s₂ =>
        match Quote.ofChar? c with
        | none => faultAt (.expectedQuote key) (c :: s₂)
        | some quote =>
          match readUntil [quote.char] (List.cons_ne_nil _ _) s₂ with
          | none => faultAt .openValue s
          | some value =>
            if value.value.toList.contains '<' then faultAt (.markupInValue key) s
            else
              let node : Attribute := {
                id := .none
                leading
                markers := []
                key
                beforeEquals := String.ofList (blanksOf (afterName s))
                afterEquals := String.ofList (blanksOf s₁)
                quote
                rawValue := value.value }
              have h₃ := Nat.lt_of_lt_of_le (length_lt_of_afterBlanks h₁) (length_afterName_le s)
              have h₄ := Nat.lt_trans value.shorter (length_lt_of_afterBlanks h₂)
              .ok ⟨node, value.rest, Nat.lt_trans h₄ h₃⟩
    | s₁ => faultAt (.expectedEquals key) s₁

structure StartTagEnd where
  attributes : List Attribute
  beforeClose : String
  selfClosing : Bool

/-- The attributes of a start tag and its end. `read` holds those already read, the last one first; `start`
is what remained at the tag's bracket. -/
def readStartTagEnd (name : String) (start : List Char) (read : List Attribute) (s : List Char) :
    Except Fault (Step StartTagEnd s) :=
  let leading := String.ofList (blanksOf s)
  match h : afterBlanks s with
  | '/' :: '>' :: rest =>
    .ok ⟨⟨read.reverse, leading, true⟩, rest, Nat.lt_of_succ_lt (length_lt_of_afterBlanks h)⟩
  | '>' :: rest =>
    .ok ⟨⟨read.reverse, leading, false⟩, rest, length_lt_of_afterBlanks h⟩
  | [] => faultAt (.openStartTag name) start
  | s₁ =>
    if leading.isEmpty && !read.isEmpty then faultAt .expectedBlank s₁
    else
      match readAttribute leading s₁ with
      | .error e => .error e
      | .ok a =>
        have := Nat.lt_of_lt_of_le a.shorter (length_le_of_afterBlanks h)
        (readStartTagEnd name start (a.value :: read) a.rest).map (·.widen (Nat.le_of_lt this))
termination_by s.length
decreasing_by assumption

def readDeclarationEnd (start : List Char) (read : List Attribute) (s : List Char) :
    Except Fault (Step (List Attribute × String) s) :=
  let leading := String.ofList (blanksOf s)
  match h : afterBlanks s with
  | '?' :: '>' :: rest =>
    .ok ⟨(read.reverse, leading), rest, Nat.lt_of_succ_lt (length_lt_of_afterBlanks h)⟩
  | [] => faultAt .openDeclaration start
  | s₁ =>
    match readAttribute leading s₁ with
    | .error e => .error e
    | .ok a =>
      have := Nat.lt_of_lt_of_le a.shorter (length_le_of_afterBlanks h)
      (readDeclarationEnd start (a.value :: read) a.rest).map (·.widen (Nat.le_of_lt this))
termination_by s.length
decreasing_by assumption

-- Constructs with a terminator are read on behind their opening characters; `start` is what remained in front of them.

def readComment (leading : String) (start s : List Char) : Except Fault (Step Comment s) :=
  match readUntil ['-', '-', '>'] (List.cons_ne_nil _ _) s with
  | none => faultAt .openComment start
  | some text => .ok (text.map ({ id := .none, leading, text := · }))

def readCdata (leading : String) (start s : List Char) : Except Fault (Step CharData s) :=
  match readUntil [']', ']', '>'] (List.cons_ne_nil _ _) s with
  | none => faultAt .openCdata start
  | some text => .ok (text.map ({ id := .none, leading, cdata := true, text := · }))

def readInstruction (leading : String) (start s : List Char) : Except Fault (Step Instruction s) :=
  if nameOf s = [] then faultAt .expectedTarget start
  else
    match readUntil ['?', '>'] (List.cons_ne_nil _ _) (afterName s) with
    | none => faultAt .openInstruction start
    | some content =>
      .ok ((content.map ({ id := .none, leading, target := String.ofList (nameOf s), content := · })).widen
        (length_afterName_le s))

/-- The text up to the bracket that closes a document type: one outside quotes and outside square brackets. -/
def breakDocType (quote : Option Char) (depth : Nat) : List Char → Option (List Char × List Char)
  | [] => none
  | c :: s =>
    match quote with
    | some q =>
      (breakDocType (if c = q then none else some q) depth s).map fun (body, rest) => (c :: body, rest)
    | none =>
      if c = '>' ∧ depth = 0 then some ([], s)
      else
        let depth' := if c = '[' then depth + 1 else if c = ']' then depth - 1 else depth
        let quote' := if c = '"' ∨ c = '\'' then some c else none
        (breakDocType quote' depth' s).map fun (body, rest) => (c :: body, rest)

theorem eq_of_breakDocType {quote : Option Char} {depth : Nat} {s body rest : List Char}
    (h : breakDocType quote depth s = some (body, rest)) : s = body ++ '>' :: rest := by
  induction s generalizing quote depth body rest with
  | nil => simp [breakDocType] at h
  | cons c s ih =>
    cases quote with
    | some q =>
      simp only [breakDocType, Option.map_eq_some_iff] at h
      obtain ⟨⟨b, r⟩, hb, he⟩ := h
      cases he
      simp [ih hb]
    | none =>
      simp only [breakDocType] at h
      split at h
      · next hc =>
        cases h
        simp [hc.1]
      · obtain ⟨⟨b, r⟩, hb, he⟩ := Option.map_eq_some_iff.1 h
        cases he
        simp [ih hb]

theorem length_lt_of_breakDocType {quote : Option Char} {depth : Nat} {s body rest : List Char}
    (h : breakDocType quote depth s = some (body, rest)) : rest.length < s.length := by
  rw [eq_of_breakDocType h, List.length_append]
  exact Nat.lt_of_lt_of_le (Nat.lt_succ_self _) (Nat.le_add_left _ _)

def readDocType (leading : String) (start s : List Char) : Except Fault (Step DocType s) :=
  match h : breakDocType none 0 s with
  | none => faultAt .openDocType start
  | some (body, rest) =>
    .ok ⟨{ id := .none, leading, body := String.ofList body }, rest,
      length_lt_of_breakDocType h⟩

def readClosing (leading expected : String) (start s : List Char) : Except Fault (Step Closing s) :=
  let name := String.ofList (nameOf s)
  match h : afterBlanks (afterName s) with
  | '>' :: rest =>
    if name = expected then
      .ok ⟨{ id := .none, leading, name, beforeClose := String.ofList (blanksOf (afterName s)) }, rest,
        Nat.lt_of_lt_of_le (length_lt_of_afterBlanks h) (length_afterName_le s)⟩
    else faultAt (.mismatched expected name) start
  | _ => faultAt (.openClosingTag name) start

/-- An element whose closing tag has not come yet; `items` holds its content so far, the last item first. -/
structure OpenTag where
  leading : String
  name : String
  attributes : List Attribute
  beforeClose : String
  start : List Char
  items : List Content

def OpenTag.push (o : OpenTag) (item : Content) : OpenTag := { o with items := item :: o.items }

def OpenTag.close (o : OpenTag) (closing : Closing) : Tag where
  id := .none
  leading := o.leading
  markers := []
  name := o.name
  attributes := o.attributes
  content := some o.items.reverse
  closing := some closing
  beforeClose := o.beforeClose

/-- A start tag either is a whole element or opens one. -/
inductive Started where
  | whole (tag : Tag)
  | opened (tag : OpenTag)

/-- A start tag behind its bracket; `start` is what remained at the bracket. -/
def readStartTag (leading : String) (start s : List Char) : Except Fault (Step Started s) :=
  let name := String.ofList (nameOf s)
  if nameOf s = [] then faultAt .expectedElementName start
  else
    match readStartTagEnd name start [] (afterName s) with
    | .error e => .error e
    | .ok found =>
      let started :=
        if found.value.selfClosing then
          .whole {
            id := .none
            leading
            markers := []
            name
            attributes := found.value.attributes
            content := none
            closing := none
            beforeClose := found.value.beforeClose }
        else
          .opened {
            leading
            name
            attributes := found.value.attributes
            beforeClose := found.value.beforeClose
            start
            items := [] }
      .ok ((found.map fun _ => started).widen (length_afterName_le s))

/-- Text up to the next bracket: blanks belong to what follows, anything else is character data. -/
def OpenTag.takeText (o : OpenTag) (text : List Char) : OpenTag × String :=
  if text.all Text.isBlank then (o, String.ofList text)
  else (o.push (.charData { id := .none, leading := "", cdata := false, text := String.ofList text }), "")

/-- What a bracket in the content of an element begins: the closing tag, an item, or an element that stays
open. -/
inductive Turn where
  | close (closing : Closing)
  | item (item : Content)
  | enter (tag : OpenTag)

def Started.turn : Started → Turn
  | whole tag => .item (.tag tag)
  | opened tag => .enter tag

/-- The construct at the bracket that `s` begins with, in the content of `current`; `depth` elements are open. -/
def readTurn (leading : String) (current : OpenTag) (depth : Nat) (s : List Char) : Except Fault (Step Turn s) :=
  match h : Text.after? ['<', '/'] s with
  | some r => do
    let closing ← readClosing leading current.name s r
    return (closing.map .close).widen (length_le_of_after? h)
  | none =>
    match h : Text.after? ['<', '!', '-', '-'] s with
    | some r => do
      let node ← readComment leading s r
      return (node.map (.item ∘ .comment)).widen (length_le_of_after? h)
    | none =>
      match h : Text.after? "<![CDATA[".toList s with
      | some r => do
        let node ← readCdata leading s r
        return (node.map (.item ∘ .charData)).widen (length_le_of_after? h)
      | none =>
        match h : Text.after? ['<', '?'] s with
        | some r => do
          let node ← readInstruction leading s r
          return (node.map (.item ∘ .instruction)).widen (length_le_of_after? h)
        | none =>
          if Text.startsWith s ['<', '!'] then faultAt .declarationInElement s
          else if maxDepth ≤ depth then faultAt .nestedTooDeep s
          else
            match h : Text.after? ['<'] s with
            | none => faultAt (.unclosed current.name) current.start
            | some r => do
              let started ← readStartTag leading s r
              return (started.map Started.turn).widen (length_le_of_after? h)

/-- The rest of the root element: the content of `current`, inside the open elements `outer`, innermost
first. -/
def readContent (current : OpenTag) (outer : List OpenTag) (s : List Char) :
    Except Fault (Tag × List Char) :=
  let s₁ := s.dropWhile (· ≠ '<')
  have : s₁.length ≤ s.length := length_dropWhile_le _ s
  if s₁ = [] then faultAt (.unclosed current.name) current.start
  else
    let taken := current.takeText (s.takeWhile (· ≠ '<'))
    match readTurn taken.2 current (outer.length + 1) s₁ with
    | .error e => .error e
    | .ok turn =>
      have := turn.shorter
      match turn.value, outer with
      | .close closing, [] => .ok (taken.1.close closing, turn.rest)
      | .close closing, parent :: outer =>
        readContent (parent.push (.tag (taken.1.close closing))) outer turn.rest
      | .item item, outer => readContent (taken.1.push item) outer turn.rest
      | .enter tag, outer => readContent tag (taken.1 :: outer) turn.rest
termination_by s.length

def readRoot (leading : String) (s : List Char) : Except Fault (Tag × List Char) :=
  match readStartTag leading s (s.drop 1) with
  | .error e => .error e
  | .ok started =>
    match started.value with
    | .whole tag => .ok (tag, started.rest)
    | .opened tag => readContent tag [] started.rest

def readMisc (leading : String) (s : List Char) : Except Fault (Option (Step Misc s)) :=
  match h : Text.after? ['<', '!', '-', '-'] s with
  | some r => do
    let node ← readComment leading s r
    return some ((node.map .comment).widen (Nat.le_of_lt (length_lt_of_after? h (List.cons_ne_nil _ _))))
  | none =>
    match h : Text.after? ['<', '?'] s with
    | some r => do
      let node ← readInstruction leading s r
      return some ((node.map .instruction).widen (Nat.le_of_lt (length_lt_of_after? h (List.cons_ne_nil _ _))))
    | none => .ok none

def readPrologItem (leading : String) (s : List Char) : Except Fault (Option (Step Misc s)) :=
  match h : Text.after? "<!DOCTYPE".toList s with
  | some r => do
    let node ← readDocType leading s r
    return some ((node.map .docType).widen (Nat.le_of_lt (length_lt_of_after? h (List.cons_ne_nil _ _))))
  | none => readMisc leading s

/-- The items in front of the root element, and the blanks in front of what follows them. -/
def readPrologItems (read : List Misc) (s : List Char) : Except Fault (List Misc × String × List Char) :=
  let leading := String.ofList (blanksOf s)
  match readPrologItem leading (afterBlanks s) with
  | .error e => .error e
  | .ok none => .ok (read.reverse, leading, afterBlanks s)
  | .ok (some item) =>
    have := Nat.lt_of_lt_of_le item.shorter (length_afterBlanks_le s)
    readPrologItems (item.value :: read) item.rest
termination_by s.length

def readEpilog (read : List Misc) (s : List Char) : Except Fault (List Misc × String) :=
  let leading := String.ofList (blanksOf s)
  if afterBlanks s = [] then .ok (read.reverse, leading)
  else
    match readMisc leading (afterBlanks s) with
    | .error e => .error e
    | .ok none => faultAt .contentAfterRoot (afterBlanks s)
    | .ok (some item) =>
      have := Nat.lt_of_lt_of_le item.shorter (length_afterBlanks_le s)
      readEpilog (item.value :: read) item.rest
termination_by s.length

def afterDeclarationStart? (s : List Char) : Option (List Char) :=
  (Text.after? "<?xml".toList s).filter fun r =>
    match r with
    | c :: _ => Text.isBlank c || c == '?'
    | [] => false

def readDeclaration? (s : List Char) : Except Fault (Option Declaration × List Char) :=
  let s₁ := afterBlanks s
  match afterDeclarationStart? s₁ with
  | none => .ok (none, s)
  | some r => do
    let found ← readDeclarationEnd s₁ [] r
    return (some {
      id := .none
      leading := String.ofList (blanksOf s)
      attributes := found.value.1
      beforeClose := found.value.2 }, found.rest)

def readDocument (path : FilePath) (kind : SourceKind) (s : List Char) : Except Fault Document := do
  let bom := s.head? == some '\ufeff'
  let (declaration, s₁) ← readDeclaration? (if bom then s.drop 1 else s)
  let (misc, leading, s₂) ← readPrologItems [] s₁
  if s₂ = [] then faultAt .missingRoot s₂
  else if !Text.startsWith s₂ ['<'] || Text.startsWith s₂ ['<', '/'] then faultAt .expectedRoot s₂
  else
    let (root, s₃) ← readRoot leading s₂
    let (epilog, eof) ← readEpilog [] s₃
    return {
      id := .none
      path
      kind
      markers := []
      bom
      prolog := { id := .none, declaration, misc }
      root
      epilog
      eof }

end Emend.Markup
