import Emend.Yaml.Scalar

/-! # Tokens

The words of a document and the marks that its layout stands for. Anchors, tags and directives are read here.
-/

namespace Emend.Yaml

inductive Token where
  | version (major minor : Nat)
  | shorthand (handle start : String)
  | documentStart
  | documentEnd
  | blockSequenceStart
  | blockMappingStart
  | blockEnd
  | flowSequenceStart
  | flowSequenceEnd
  | flowMappingStart
  | flowMappingEnd
  | blockEntry
  | flowEntry
  | key
  | value
  | reference (name : String)
  | anchor (name : String)
  | tag (handle suffix : String)
  | scalar (text : String) (style : Style)
deriving DecidableEq

def anchorName (s : List Char) : Option (String × List Char) :=
  let name := s.takeWhile isWordChar
  let rest := s.dropWhile isWordChar
  if !name.isEmpty && (atBlank rest || rest.head?.any (oneOf "?:,]\x7d%@`")) then some (String.ofList name, rest)
  else none

/-- Characters of a tag beside letters and digits; between angle brackets there are more. -/
def isTagChar (verbatim : Bool) (c : Char) : Bool :=
  isWordChar c || oneOf ";/?:@&=+$.!~*\x27()%" c || (verbatim && oneOf ",[]" c)

def encodedLength? (n : Nat) : Option Nat :=
  if n < 0x80 then some 1
  else if n / 0x20 = 6 then some 2
  else if n / 0x10 = 14 then some 3
  else if n / 8 = 30 then some 4
  else none

def escapedBytes : Nat → List Char → Option (List UInt8 × List Char)
  | 0, s => some ([], s)
  | n + 1, '%' :: a :: b :: s => do
    let byte := (← Json.hexValue? a) * 16 + (← Json.hexValue? b)
    let (more, rest) ← escapedBytes n s
    return (byte.toUInt8 :: more, rest)
  | _ + 1, _ => none

def escapedChar (s : List Char) : Option (Char × List Char) := do
  let (first, _) ← escapedBytes 1 s
  let length ← encodedLength? ((first.map UInt8.toNat).headD 0)
  let (bytes, rest) ← escapedBytes length s
  match (← String.fromUTF8? ⟨bytes.toArray⟩).toList with
  | [c] => some (c, rest)
  | _ => none

def tagChars (verbatim : Bool) (s : List Char) : Option (List Char × List Char) := go s.length s
where
  go : Nat → List Char → Option (List Char × List Char)
    | _, [] => some ([], [])
    | 0, s => some ([], s)
    | n + 1, c :: s =>
      if c == '%' then do
        let (e, rest) ← escapedChar (c :: s)
        let (more, rest) ← go n rest
        return (e :: more, rest)
      else if isTagChar verbatim c then do
        let (more, rest) ← go n s
        return (c :: more, rest)
      else some ([], c :: s)

def tagHandle (s : List Char) : Option (List Char × List Char) :=
  match s with
  | '!' :: s =>
    let name := s.takeWhile isWordChar
    match s.dropWhile isWordChar with
    | '!' :: rest => some ('!' :: (name ++ ['!']), rest)
    | rest => some ('!' :: name, rest)
  | _ => none

/-- A tag, with the handle and what follows it. The tag `!` has no handle. -/
def tag (inFlow : Bool) (s : List Char) : Option (Token × List Char) := do
  let (handle, suffix, rest) ← match s with
    | '!' :: '<' :: s => do
      let (suffix, rest) ← tagChars true s
      match suffix, rest with
      | _ :: _, '>' :: rest => pure ([], suffix, rest)
      | _, _ => none
    | _ => do
      let (handle, rest) ← tagHandle s
      if 2 ≤ handle.length && handle.getLast? == some '!' then
        let (suffix, rest) ← tagChars false rest
        if suffix.isEmpty then none else pure (handle, suffix, rest)
      else
        let (more, rest) ← tagChars false rest
        match handle.tail ++ more with
        | [] => pure ([], ['!'], rest)
        | suffix => pure (['!'], suffix, rest)
  if atBlank rest || (inFlow && rest.head? == some ',') then
    some (.tag (String.ofList handle) (String.ofList suffix), rest)
  else none

def versionNumber (s : List Char) : Option (Nat × List Char) :=
  let digits := s.takeWhile Json.isDigit
  if digits.isEmpty || 9 < digits.length then none else some (Json.ofDigits digits, s.dropWhile Json.isDigit)

def versionDirective (s : List Char) : Option (Token × List Char) := do
  let (major, s) ← versionNumber (s.dropWhile isSpace)
  match s with
  | '.' :: s => do
    let (minor, s) ← versionNumber s
    return (.version major minor, s)
  | _ => none

def shorthandDirective (s : List Char) : Option (Token × List Char) := do
  let (handle, s) ← tagHandle (s.dropWhile isSpace)
  if 2 ≤ handle.length && handle.getLast? != some '!' then none
  if !s.head?.any isSpace then none
  let (start, s) ← tagChars true (s.dropWhile isSpace)
  if start.isEmpty || !atBlank s then none
  return (.shorthand (String.ofList handle) (String.ofList start), s)

def directive (s : List Char) : Option (Token × List Char) := do
  let name := String.ofList (s.takeWhile isWordChar)
  let s := s.dropWhile isWordChar
  if !atBlank s then none
  let (t, s) ← if name = "YAML" then versionDirective s else if name = "TAG" then shorthandDirective s else none
  let s := s.dropWhile isSpace
  let s := if s.head? == some '#' then s.dropWhile (!isBreak ·) else s
  match s with
  | [] => some (t, [])
  | c :: r => if isBreak c then some (t, if isPairedReturn c r then r.tail else r) else none

end Emend.Yaml
