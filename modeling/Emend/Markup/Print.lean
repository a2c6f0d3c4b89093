import Emend.Markup.Node

/-! # Printing

Every node prints as its parts in order; ids and markers do not show.
-/

namespace Emend.Markup

def Attribute.print (a : Attribute) : String :=
  a.leading ++ a.key ++ a.beforeEquals ++ "=" ++ a.afterEquals ++ a.quote.char.toString ++ a.rawValue ++
    a.quote.char.toString

def printAttributes (as : List Attribute) : String := String.join (as.map Attribute.print)

def Closing.print (c : Closing) : String := c.leading ++ "</" ++ c.name ++ c.beforeClose ++ ">"

def CharData.print (d : CharData) : String :=
  if d.cdata then d.leading ++ "<![CDATA[" ++ d.text ++ "]]>" else d.leading ++ d.text

def Comment.print (c : Comment) : String := c.leading ++ "<!--" ++ c.text ++ "-->"

def Instruction.print (i : Instruction) : String := i.leading ++ "<?" ++ i.target ++ i.content ++ "?>"

def DocType.print (d : DocType) : String := d.leading ++ "<!DOCTYPE" ++ d.body ++ ">"

def Misc.print : Misc → String
  | comment c => c.print
  | instruction i => i.print
  | docType d => d.print

def printMisc (ms : List Misc) : String := String.join (ms.map Misc.print)

mutual

/-- An element without content or without closing tag prints as a self-closing one. -/
def Tag.print : Tag → String
  | ⟨_, leading, _, name, attributes, content, closing, beforeClose⟩ =>
    leading ++ "<" ++ name ++ printAttributes attributes ++ beforeClose ++
      match content, closing with
      | some items, some c => ">" ++ Content.printAll items ++ c.print
      | _, _ => "/>"

def Content.print : Content → String
  | .tag t => t.print
  | .charData d => d.print
  | .comment c => c.print
  | .instruction i => i.print

def Content.printAll : List Content → String
  | [] => ""
  | c :: cs => c.print ++ Content.printAll cs

end

def Declaration.print (d : Declaration) : String :=
  d.leading ++ "<?xml" ++ printAttributes d.attributes ++ d.beforeClose ++ "?>"

def Prolog.print (p : Prolog) : String :=
  (match p.declaration with
    | some d => d.print
    | none => "") ++ printMisc p.misc

def bomChar : Char := '\ufeff'

def Document.print (d : Document) : String :=
  (if d.bom then bomChar.toString else "") ++ d.prolog.print ++ d.root.print ++ printMisc d.epilog ++ d.eof

end Emend.Markup
