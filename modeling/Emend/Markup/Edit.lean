import Emend.Markup.Query
import Emend.Markup.Validity

/-! # Making and changing nodes

Nodes are values; a change makes a new value with the same id. New nodes take an id from the supply and are
refused if they break their own rule.
-/

namespace Emend.Markup

/-- Making a node may take ids and may be refused. -/
abbrev Making := ExceptT Violation Fresh

def checked {α : Type} (check : Check) (node : Fresh α) : Making α := do
  match check with
  | .ok () => ExceptT.lift node
  | .error v => throw v

def Attribute.new (leading key : String) (quote : Quote) (rawValue : String) : Making Attribute := do
  let node (id : NodeId) : Attribute :=
    { id, leading, markers := [], key, beforeEquals := "", afterEquals := "", quote, rawValue }
  checked (node .none).check (node <$> NodeId.fresh)

/-- Writes the value so that it reads back between the attribute's own quotes. -/
def Attribute.withValue (a : Attribute) (value : String) : Attribute :=
  { a with rawValue := escapeAttribute a.quote value }

def CharData.new (leading : String) (cdata : Bool) (text : String) : Making CharData := do
  let node (id : NodeId) : CharData := { id, leading, cdata, text }
  checked (node .none).check (node <$> NodeId.fresh)

def CharData.withText (d : CharData) (text : String) : Except Violation CharData := do
  let node := { d with text }
  node.check
  return node

def Comment.new (leading text : String) : Making Comment := do
  let node (id : NodeId) : Comment := { id, leading, text }
  checked (node .none).check (node <$> NodeId.fresh)

def Comment.withText (c : Comment) (text : String) : Except Violation Comment := do
  let node := { c with text }
  node.check
  return node

def Instruction.new (leading target content : String) : Making Instruction := do
  let node (id : NodeId) : Instruction := { id, leading, target, content }
  checked (node .none).check (node <$> NodeId.fresh)

def DocType.new (leading body : String) : Fresh DocType := return { id := ← NodeId.fresh, leading, body }

def Closing.new (leading name beforeClose : String) : Fresh Closing :=
  return { id := ← NodeId.fresh, leading, name, beforeClose }

def Declaration.new (leading : String) (attributes : List Attribute) (beforeClose : String) :
    Fresh Declaration :=
  return { id := ← NodeId.fresh, leading, attributes, beforeClose }

def Prolog.new (declaration : Option Declaration) (misc : List Misc) : Fresh Prolog :=
  return { id := ← NodeId.fresh, declaration, misc }

namespace Tag

def new (leading name : String) (attributes : List Attribute) (beforeClose : String)
    (body : Option (List Content × Closing)) : Making Tag := do
  let node (id : NodeId) : Tag :=
    { id, leading, markers := [], name, attributes, content := body.map (·.1), closing := body.map (·.2),
      beforeClose }
  checked (checkBody name (body.map (·.1)) (body.map (·.2))) (node <$> NodeId.fresh)

/-- Renames the element and its closing tag. -/
def withName (t : Tag) (name : String) : Tag :=
  { t with name, closing := t.closing.map fun c => { c with name } }

/-- Replaces the content; a self-closing element gets a closing tag. -/
def withContent (t : Tag) (content : List Content) : Fresh Tag := do
  let closing ← match t.closing with
    | some c => pure c
    | none => Closing.new "" t.name ""
  return { t with content := some content, closing := some closing }

/-- Replaces the content by one run of text; a lone run that was there keeps its id. -/
def withValue (t : Tag) (value : String) : Fresh Tag := do
  let text := escapeText value
  let data ← match t.content with
    | some [.charData d] => if d.cdata then newRun text else pure { d with text }
    | _ => newRun text
  t.withContent [.charData data]
where
  newRun (text : String) : Fresh CharData := return { id := ← NodeId.fresh, leading := "", cdata := false, text }

def withAttributeValue? (t : Tag) (key value : String) : Option Tag :=
  go t.attributes |>.map fun attributes => { t with attributes }
where
  go : List Attribute → Option (List Attribute)
    | [] => none
    | a :: as => if a.key = key then some (a.withValue value :: as) else (go as).map (a :: ·)

def withChildValue? (t : Tag) (name value : String) : Fresh (Option Tag) := do
  match t.content with
  | none => return none
  | some items =>
    match ← go items with
    | none => return none
    | some items => return some (← t.withContent items)
where
  go : List Content → Fresh (Option (List Content))
    | [] => return none
    | .tag child :: cs => do
      if child.name = name then return some (.tag (← child.withValue value) :: cs)
      else return (← go cs).map (.tag child :: ·)
    | c :: cs => return (← go cs).map (c :: ·)

def withoutChild (t : Tag) (id : NodeId) : Fresh Tag :=
  match t.content with
  | some items => t.withContent (items.filter (·.id ≠ id))
  | none => return t

end Tag

namespace Document

def new (path : FilePath) (kind : SourceKind) (prolog : Prolog) (root : Tag) : Making Document := do
  let node (id : NodeId) : Document :=
    { id, path, kind, markers := [], bom := false, prolog, root, epilog := [], eof := "" }
  checked ((Violation.notMarkupKind kind).when (!kind.isA .xml)) (node <$> NodeId.fresh)

def withEof (d : Document) (eof : String) : Except Violation Document := do
  Violation.eofNotBlank.when (!Text.allBlank eof)
  return { d with eof }

end Document
end Emend.Markup
