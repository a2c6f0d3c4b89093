import Emend.Yaml.Token

/-! # The tokens of a text

Block collections begin and end where the indentation changes. Whether a word is a key shows only at the
colon behind it, so that the places where a key may have begun are kept in mind: one in each pair of brackets
and one outside of them. A key is no longer than a line and 1024 characters.
-/

namespace Emend.Yaml

structure Position where
  index : Nat := 0
  line : Nat := 0
  column : Nat := 0
deriving DecidableEq

def Position.advance : Position → List Char → Position
  | p, [] => p
  | p, c :: s =>
    if isBreak c && !isPairedReturn c s then advance ⟨p.index + 1, p.line + 1, 0⟩ s
    else advance ⟨p.index + 1, p.line, p.column + 1⟩ s

/-- Where a key may have begun, and how many tokens came before. A required one has to turn out to be a key. -/
structure PossibleKey where
  start : Position
  number : Nat
  required : Bool
deriving DecidableEq

structure Layout where
  rest : List Char
  position : Position := {}
  tokens : List Token := []
  /-- The columns of the open block collections, the innermost first. -/
  indents : List Nat := []
  /-- The possible keys, the one in the innermost brackets first. -/
  keys : List (Option PossibleKey) := [none]
  keyAllowed : Bool := true

namespace Layout

def inFlow (l : Layout) : Bool := 1 < l.keys.length

def push (l : Layout) (t : Token) : Layout := { l with tokens := t :: l.tokens }

def insert (l : Layout) (number : Nat) (t : Token) : Layout :=
  let later := l.tokens.length - number
  { l with tokens := l.tokens.take later ++ t :: l.tokens.drop later }

def moveTo (l : Layout) (rest : List Char) : Layout :=
  { l with rest, position := l.position.advance (l.rest.take (l.rest.length - rest.length)) }

def skip (l : Layout) (n : Nat) : Layout := l.moveTo (l.rest.drop n)

def openBlock (l : Layout) (column number : Nat) (t : Token) : Layout :=
  if !l.inFlow && l.indents.head?.all (· < column) then
    { l with indents := column :: l.indents }.insert number t
  else l

def closeBlocks (column : Option Nat) (l : Layout) : Layout :=
  if l.inFlow then l
  else
    let isInner (indent : Nat) := column.all (· < indent)
    let ended := l.indents.takeWhile isInner
    { l with
      indents := l.indents.dropWhile isInner
      tokens := ended.map (fun _ => .blockEnd) ++ l.tokens }

def dropKey (l : Layout) : Option Layout :=
  match l.keys with
  | some k :: keys => if k.required then none else some { l with keys := none :: keys }
  | _ => some l

def markKey (l : Layout) : Option Layout :=
  if l.keyAllowed then do
    let l ← l.dropKey
    let key : PossibleKey := {
      start := l.position, number := l.tokens.length
      required := !l.inFlow && l.indents.head? == some l.position.column }
    return { l with keys := some key :: l.keys.tail }
  else some l

def dropLongKeys (l : Layout) : Option Layout := do
  let keys ← l.keys.mapM fun
    | none => some none
    | some k =>
      if k.start.line < l.position.line || k.start.index + 1024 < l.position.index then
        if k.required then none else some none
      else some (some k)
  return { l with keys }

def allowKey (l : Layout) (allowed : Bool) : Layout := { l with keyAllowed := allowed }

/-- Blanks and comments before a token, and whether a key may begin behind them. -/
def skipBlanks (inFlow : Bool) (allowed comment : Bool) : List Char → Bool × List Char
  | [] => (allowed, [])
  | c :: s =>
    if isPairedReturn c s then skipBlanks inFlow allowed comment s
    else if isBreak c then skipBlanks inFlow (allowed || !inFlow) false s
    else if comment || c == ' ' || (c == '\t' && (inFlow || !allowed)) then skipBlanks inFlow allowed comment s
    else if c == '#' then skipBlanks inFlow allowed true s
    else (allowed, c :: s)

def toToken (l : Layout) : Layout :=
  let l := if l.position.index = 0 && l.rest.head? == some '\ufeff' then l.skip 1 else l
  let (allowed, rest) := skipBlanks l.inFlow l.keyAllowed false l.rest
  (l.moveTo rest).allowKey allowed

def document (l : Layout) (t : Token) : Option Layout := do
  let l ← (l.closeBlocks none).dropKey
  return ((l.allowKey false).skip 3).push t

def openFlow (l : Layout) (t : Token) : Option Layout := do
  let l ← l.markKey
  return { ((l.allowKey true).skip 1).push t with keys := none :: l.keys }

def closeFlow (l : Layout) (t : Token) : Option Layout := do
  let l ← l.dropKey
  let l := (l.allowKey false).skip 1
  return { l with keys := if l.inFlow then l.keys.tail else l.keys }.push t

def flowEntry (l : Layout) : Option Layout := do
  let l ← l.dropKey
  return ((l.allowKey true).skip 1).push .flowEntry

def marked (l : Layout) (start mark : Token) (allowed : Bool) : Option Layout := do
  if !l.inFlow && !l.keyAllowed then none
  let l ← (l.openBlock l.position.column l.tokens.length start).dropKey
  return ((l.allowKey allowed).skip 1).push mark

/-- The colon says that the possible key is one; without, it stands behind a key with a mark, or none. -/
def colon (l : Layout) : Option Layout :=
  match l.keys with
  | some k :: keys =>
    let l := (l.insert k.number .key).openBlock k.start.column k.number .blockMappingStart
    some ((({ l with keys := none :: keys }.allowKey false).skip 1).push .value)
  | _ =>
    if !l.inFlow && !l.keyAllowed then none
    else
      let l := l.openBlock l.position.column l.tokens.length .blockMappingStart
      some (((l.allowKey !l.inFlow).skip 1).push .value)

def word (l : Layout) (read : List Char → Option (Token × List Char)) : Option Layout := do
  let l ← l.markKey
  let (t, rest) ← read l.rest
  return ((l.allowKey false).moveTo rest).push t

def named (make : String → Token) (s : List Char) : Option (Token × List Char) :=
  (anchorName s.tail).map fun (name, rest) => (make name, rest)

def quoted (read : List Char → Option (String × List Char)) (s : List Char) : Option (Token × List Char) :=
  (read s.tail).map fun (text, rest) => (.scalar text .other, rest)

def block (l : Layout) (folded : Bool) : Option Layout := do
  let l ← l.dropKey
  let (text, rest) ← blockScalar folded l.indents.head? l.rest.tail
  return ((l.allowKey true).moveTo rest).push (.scalar text (if folded then .other else .literal))

def plainWord (l : Layout) : Option Layout := do
  let l ← l.markKey
  let p ← plain l.inFlow ((l.indents.head?.map (· + 1)).getD 0) l.rest
  return ((l.allowKey p.broken).moveTo p.rest).push (.scalar p.text .plain)

def token (l : Layout) (c : Char) (s : List Char) : Option Layout :=
  let first := l.position.column = 0
  if first && c == '%' then do
    let l ← (l.closeBlocks none).dropKey
    let (t, rest) ← directive s
    return ((l.allowKey false).moveTo rest).push t
  else if first && atDocumentMark (c :: s) then l.document (if c == '-' then .documentStart else .documentEnd)
  else if c == '[' then l.openFlow .flowSequenceStart
  else if c == '\x7b' then l.openFlow .flowMappingStart
  else if c == ']' then l.closeFlow .flowSequenceEnd
  else if c == '\x7d' then l.closeFlow .flowMappingEnd
  else if c == ',' then l.flowEntry
  else if c == '-' && atBlank s then l.marked .blockSequenceStart .blockEntry true
  else if c == '?' && (l.inFlow || atBlank s) then l.marked .blockMappingStart .key !l.inFlow
  else if c == ':' && (l.inFlow || atBlank s) then l.colon
  else if c == '*' then l.word (named .reference)
  else if c == '&' then l.word (named .anchor)
  else if c == '!' then l.word (tag l.inFlow)
  else if c == '|' && !l.inFlow then l.block false
  else if c == '>' && !l.inFlow then l.block true
  else if c == '\x27' then l.word (quoted singleQuoted)
  else if c == '"' then l.word (quoted doubleQuoted)
  else if !(isSpace c || isBreak c || oneOf "-?:,[]\x7b\x7d#&*!|>\x27\"%@`" c) ||
      (c == '-' && !s.head?.any isSpace) || (!l.inFlow && (c == '?' || c == ':')) then l.plainWord
  else none

def readAll (start : Layout) : Option (List Token) := do
  let l ← start.toToken.dropLongKeys
  let l := l.closeBlocks (some l.position.column)
  match l.rest with
  | [] => do
    let l ← (l.closeBlocks none).dropKey
    return l.tokens.reverse
  | c :: s => do
    let next ← l.token c s
    if next.rest.length < start.rest.length then next.readAll else none
termination_by start.rest.length

end Layout

def tokens? (s : String) : Option (List Token) :=
  if s.toList.all isAllowed then { rest := s.toList : Layout }.readAll else none

end Emend.Yaml
