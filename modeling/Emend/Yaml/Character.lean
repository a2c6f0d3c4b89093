/-! # Characters of YAML

Which characters a document may hold, and the classes that tell its words apart.
-/

namespace Emend.Yaml

def isAllowed (c : Char) : Bool :=
  let n := c.toNat
  n == 0x9 || n == 0xA || n == 0xD || (0x20 ≤ n && n ≤ 0x7E) || n == 0x85 || (0xA0 ≤ n && n ≤ 0xD7FF) ||
    (0xE000 ≤ n && n ≤ 0xFFFD) || 0x10000 ≤ n

def isBreak (c : Char) : Bool := c == '\n' || c == '\r' || c == '\u0085' || c == '\u2028' || c == '\u2029'

/-- What a line break reads as: the separators of Unicode stay, all others are line feeds. -/
def breakText (c : Char) : Char := if c == '\u2028' || c == '\u2029' then c else '\n'

def isSpace (c : Char) : Bool := c == ' ' || c == '\t'

/-- The text is at its end, or a blank or a line break comes next. -/
def atBlank (s : List Char) : Bool := s.head?.all fun c => isSpace c || isBreak c

def atBreak (s : List Char) : Bool := s.head?.all isBreak

/-- A carriage return that a line feed follows; both are one break. -/
def isPairedReturn (c : Char) (rest : List Char) : Bool := c == '\r' && rest.head? == some '\n'

def isWordChar (c : Char) : Bool := c.isAlphanum || c == '-' || c == '_'

def atDocumentMark : List Char → Bool
  | '-' :: '-' :: '-' :: s | '.' :: '.' :: '.' :: s => atBlank s
  | _ => false

def oneOf (chars : String) (c : Char) : Bool := chars.toList.contains c

end Emend.Yaml
