import Emend.Markup.Node

/-! # Faults in markup text

Why a text is not a document, and where: a fault keeps how many bytes remain from its place to the end of the text,
from which line and column follow.
-/

namespace Emend

/-- A byte that characters begin with: the bytes behind the first one lie between ASCII and these. -/
def Text.beginsChar (byte : UInt8) : Bool := byte < 0x80 || 0xC0 ≤ byte

def Text.size (s : List Char) : Nat := (String.ofList s).utf8ByteSize

namespace Markup

inductive Cause where
  | missingRoot
  | expectedRoot
  | contentAfterRoot
  | openDeclaration
  | openComment
  | openInstruction
  | openCdata
  | openDocType
  | openValue
  | expectedTarget
  | expectedElementName
  | expectedAttributeName
  | expectedBlank
  | expectedEquals (key : String)
  | expectedQuote (key : String)
  | markupInValue (key : String)
  | openStartTag (name : String)
  | openClosingTag (name : String)
  | unclosed (name : String)
  | mismatched (expected found : String)
  | declarationInElement
  | nestedTooDeep
deriving DecidableEq

def Cause.message : Cause → String
  | missingRoot => "Missing root element"
  | expectedRoot => "Expected root element"
  | contentAfterRoot => "Unexpected content after root element"
  | openDeclaration => "Unterminated XML declaration"
  | openComment => "Unterminated comment"
  | openInstruction => "Unterminated processing instruction"
  | openCdata => "Unterminated CDATA section"
  | openDocType => "Unterminated DOCTYPE declaration"
  | openValue => "Unterminated attribute value"
  | expectedTarget => "Expected processing instruction target"
  | expectedElementName => "Expected element name"
  | expectedAttributeName => "Expected attribute name"
  | expectedBlank => "Expected whitespace between attributes"
  | expectedEquals key => s!"Expected '=' after attribute '{key}'"
  | expectedQuote key => s!"Expected quoted value for attribute '{key}'"
  | markupInValue key => s!"Attribute '{key}' value contains '<'"
  | openStartTag name => s!"Unterminated tag '{name}'"
  | openClosingTag name => s!"Unterminated closing tag '{name}'"
  | unclosed name => s!"Unclosed tag '{name}'"
  | mismatched expected found =>
    s!"Mismatched closing tag: expected '</{expected}>' but found '</{found}>'"
  | declarationInElement => "Unexpected markup declaration in element"
  | nestedTooDeep => s!"Element nesting deeper than {maxDepth}"

structure Fault where
  cause : Cause
  remaining : Nat
deriving DecidableEq

/-- A fault at the place where `s` remains. -/
def faultAt {α : Type} (cause : Cause) (s : List Char) : Except Fault α := .error ⟨cause, Text.size s⟩

/-- Line and column behind some bytes of a text, both from one; columns count the characters behind the last line
feed. -/
def bytePosition (bytes : List UInt8) : Nat × Nat :=
  (bytes.count 0x0A + 1, (bytes.reverse.takeWhile (· != 0x0A)).countP Text.beginsChar + 1)

def lineColumn (source : String) (offset : String.Pos.Raw) : Nat × Nat :=
  bytePosition (source.toUTF8.data.toList.take offset.byteIdx)

def Fault.offset (f : Fault) (source : String) : String.Pos.Raw := ⟨source.utf8ByteSize - f.remaining⟩

def Fault.position (f : Fault) (source : String) : Nat × Nat := lineColumn source (f.offset source)

end Markup
end Emend
