import Emend.Markup.Node
import Emend.Text.Blank

/-! # What every node has to satisfy

A node that breaks its own rule would print as something else. `Violation` names the rules; a document
read from storage is accepted by `Document.check` exactly if no node breaks one and elements nest no
deeper than `maxDepth`.
-/

namespace Emend.Markup

inductive Violation where
  | notMarkupKind (kind : SourceKind)
  | eofNotBlank
  | closingDiffers (closing name : String)
  | contentWithoutClosing (name : String)
  | closingWithoutContent (name : String)
  | quoteInValue
  | terminatorInComment
  | terminatorInInstruction
  | terminatorInCdata
  | markupInText
  | nestedTooDeep
deriving DecidableEq

def Violation.message : Violation → String
  | notMarkupKind kind => s!"XML document cannot have source kind '{kind.display}'"
  | eofNotBlank => "document eof must be whitespace"
  | closingDiffers closing name => s!"closing tag '{closing}' does not match opening tag '{name}'"
  | contentWithoutClosing name => s!"element '{name}' has content but no closing tag"
  | closingWithoutContent name => s!"element '{name}' has a closing tag but no content"
  | quoteInValue => "attribute value cannot contain its own quote character"
  | terminatorInComment => "comment text cannot contain '-->'"
  | terminatorInInstruction => "processing instruction content cannot contain '?>'"
  | terminatorInCdata => "CDATA text cannot contain ']]>'"
  | markupInText => "character data cannot contain '<'"
  | nestedTooDeep => s!"Element nesting deeper than {maxDepth}"

/-- Passes, or reports the violation. -/
abbrev Check := Except Violation Unit

def Violation.when (v : Violation) (bad : Bool) : Check := if bad then .error v else .ok ()

def Attribute.check (a : Attribute) : Check :=
  Violation.quoteInValue.when (a.rawValue.toList.contains a.quote.char)

def Comment.check (c : Comment) : Check :=
  Violation.terminatorInComment.when (Text.occursIn "-->" c.text)

def Instruction.check (i : Instruction) : Check :=
  Violation.terminatorInInstruction.when (Text.occursIn "?>" i.content)

def CharData.check (d : CharData) : Check :=
  if d.cdata then Violation.terminatorInCdata.when (Text.occursIn "]]>" d.text)
  else Violation.markupInText.when (d.text.toList.contains '<')

def Misc.check : Misc → Check
  | comment c => c.check
  | instruction i => i.check
  | docType _ => .ok ()

/-- Content and closing tag come together, and the closing tag repeats the name. -/
def checkBody (name : String) : Option (List Content) → Option Closing → Check
  | some _, some closing => (Violation.closingDiffers closing.name name).when (closing.name != name)
  | none, none => .ok ()
  | some _, none => .error (.contentWithoutClosing name)
  | none, some _ => .error (.closingWithoutContent name)

def checkAttributes (as : List Attribute) : Check := as.forM Attribute.check

/-- The element's own rules; its children are not looked at. -/
def Tag.checkSelf (t : Tag) : Check := do
  checkBody t.name t.content t.closing
  checkAttributes t.attributes

def Content.checkLeaf : Content → Check
  | tag _ => .ok ()
  | charData d => d.check
  | comment c => c.check
  | instruction i => i.check

mutual

/-- The element at nesting level `depth`: itself, then what it holds that is not an element, then the
elements it holds, the last one first. -/
def Tag.checkAt (depth : Nat) : Tag → Check
  | ⟨i, l, m, n, as, content, closing, bc⟩ => do
    Violation.nestedTooDeep.when (maxDepth < depth)
    Tag.checkSelf ⟨i, l, m, n, as, content, closing, bc⟩
    match content with
    | none => pure ()
    | some items =>
      items.forM Content.checkLeaf
      Content.checkTags (depth + 1) items

def Content.checkTags (depth : Nat) : List Content → Check
  | [] => .ok ()
  | .tag t :: rest => do
    Content.checkTags depth rest
    Tag.checkAt depth t
  | .charData _ :: rest | .comment _ :: rest | .instruction _ :: rest => Content.checkTags depth rest

end

def Document.check (d : Document) : Check := do
  (Violation.notMarkupKind d.kind).when (!d.kind.isA .xml)
  Violation.eofNotBlank.when (!Text.allBlank d.eof)
  match d.prolog.declaration with
  | some decl => checkAttributes decl.attributes
  | none => pure ()
  d.prolog.misc.forM Misc.check
  d.epilog.forM Misc.check
  Tag.checkAt 1 d.root

end Emend.Markup
