import Emend.Markup.Node

/-! # Giving ids to a tree

Every node of a tree just read gets an id of its own, parents before children.
-/

namespace Emend.Markup

def Attribute.number (a : Attribute) : Fresh Attribute := return { a with id := ← NodeId.fresh }

def Closing.number (c : Closing) : Fresh Closing := return { c with id := ← NodeId.fresh }

def CharData.number (d : CharData) : Fresh CharData := return { d with id := ← NodeId.fresh }

def Comment.number (c : Comment) : Fresh Comment := return { c with id := ← NodeId.fresh }

def Instruction.number (i : Instruction) : Fresh Instruction := return { i with id := ← NodeId.fresh }

def DocType.number (d : DocType) : Fresh DocType := return { d with id := ← NodeId.fresh }

def Misc.number : Misc → Fresh Misc
  | comment c => return comment (← c.number)
  | instruction i => return instruction (← i.number)
  | docType d => return docType (← d.number)

mutual

def Tag.number : Tag → Fresh Tag
  | ⟨_, leading, markers, name, attributes, content, closing, beforeClose⟩ => do
    let id ← NodeId.fresh
    let attributes ← attributes.mapM Attribute.number
    let content ← match content with
      | some items => some <$> Content.numberAll items
      | none => pure none
    let closing ← match closing with
      | some c => some <$> c.number
      | none => pure none
    return ⟨id, leading, markers, name, attributes, content, closing, beforeClose⟩

def Content.number : Content → Fresh Content
  | .tag t => return .tag (← t.number)
  | .charData d => return .charData (← d.number)
  | .comment c => return .comment (← c.number)
  | .instruction i => return .instruction (← i.number)

def Content.numberAll : List Content → Fresh (List Content)
  | [] => return []
  | c :: cs => do
    let c ← c.number
    let cs ← Content.numberAll cs
    return c :: cs

end

def Declaration.number (d : Declaration) : Fresh Declaration := do
  let id ← NodeId.fresh
  return { d with id, attributes := ← d.attributes.mapM Attribute.number }

def Prolog.number (p : Prolog) : Fresh Prolog := do
  let id ← NodeId.fresh
  let declaration ← match p.declaration with
    | some d => some <$> d.number
    | none => pure none
  return { id, declaration, misc := ← p.misc.mapM Misc.number }

def Document.number (d : Document) : Fresh Document := do
  let id ← NodeId.fresh
  let prolog ← d.prolog.number
  let root ← d.root.number
  return { d with id, prolog, root, epilog := ← d.epilog.mapM Misc.number }

end Emend.Markup
