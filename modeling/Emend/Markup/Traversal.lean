import Emend.Markup.TagPath
import Emend.Session

/-! # Walking through documents

A visitor has one hook for every kind of node. A hook gets the node, its place and the walk through what
the node holds, which it may run or not. A walk goes through the parts in the order they print and rebuilds
the node only if a part changed.
-/

namespace Emend.Markup

/-- Where a node stands: the file, and the names of the elements around it, outermost first. -/
structure Place where
  path : FilePath
  kind : SourceKind
  ancestors : List String := []

namespace Place

/-- The place of what an element called `name` holds. -/
def enter (p : Place) (name : String) : Place := { p with ancestors := p.ancestors ++ [name] }

def parentName? (p : Place) : Option String := p.ancestors.getLast?

def pathOf (p : Place) (t : Tag) : String := String.join ((p.ancestors ++ [t.name]).map ("/" ++ ·))

def isInside (p : Place) (name : String) : Bool := p.ancestors.contains name

def selectedBy (p : Place) (path : TagPath) (t : Tag) : Bool := path.selects p.ancestors t.name

end Place

/-- A visitor that works in `m`. The hooks left out walk on and change nothing. -/
structure Visitor (m : Type → Type) [Monad m] where
  target : SourceKind := .xml
  document : Place → Document → m (Visit Document) → m (Visit Document) := fun _ _ walk => walk
  prolog : Place → Prolog → m (Visit Prolog) → m (Visit Prolog) := fun _ _ walk => walk
  declaration : Place → Declaration → m (Visit Declaration) → m (Visit Declaration) := fun _ _ walk => walk
  tag : Place → Tag → m (Visit Tag) → m (Visit Tag) := fun _ _ walk => walk
  attr : Place → Attribute → m (Visit Attribute) := fun _ _ => return .unchanged
  charData : Place → CharData → m (Visit CharData) := fun _ _ => return .unchanged
  comment : Place → Comment → m (Visit Comment) := fun _ _ => return .unchanged
  instruction : Place → Instruction → m (Visit Instruction) := fun _ _ => return .unchanged
  docType : Place → DocType → m (Visit DocType) := fun _ _ => return .unchanged

namespace Visitor

variable {m : Type → Type} [Monad m] [Cancellable m]

mutual

def walkTag (v : Visitor m) (place : Place) : Tag → m (Visit Tag)
  | ⟨id, leading, markers, name, attributes, content, closing, beforeClose⟩ => do
    Cancellable.checkpoint
    let inside := place.enter name
    let newAttributes ← Visit.each (v.attr inside) attributes
    let newContent ← match content with
      | some items => walkItems v inside items
      | none => pure .unchanged
    return if newAttributes.isChanged || newContent.isChanged then
        .changed ⟨id, leading, markers, name, newAttributes.getD attributes,
          (newContent.map some).getD content, closing, beforeClose⟩
      else .unchanged

def walkContent (v : Visitor m) (place : Place) : Content → m (Visit Content)
  | .tag t => return (← v.tag place t (walkTag v place t)).map .tag
  | .charData d => return (← v.charData place d).map .charData
  | .comment c => return (← v.comment place c).map .comment
  | .instruction i => return (← v.instruction place i).map .instruction

def walkItems (v : Visitor m) (place : Place) : List Content → m (Visit (List Content))
  | [] => return .unchanged
  | c :: cs => do
    let x := (← walkContent v place c).settle c
    let xs ← walkItems v place cs
    return if x.isChanged || xs.isChanged then .changed (x.getD c :: xs.getD cs) else .unchanged

end

def walkMisc (v : Visitor m) (place : Place) : Misc → m (Visit Misc)
  | .comment c => return (← v.comment place c).map .comment
  | .instruction i => return (← v.instruction place i).map .instruction
  | .docType d => return (← v.docType place d).map .docType

def walkDeclaration (v : Visitor m) (place : Place) (d : Declaration) : m (Visit Declaration) := do
  return (← Visit.each (v.attr place) d.attributes).map fun attributes => { d with attributes }

def walkProlog (v : Visitor m) (place : Place) (p : Prolog) : m (Visit Prolog) := do
  let declaration ← match p.declaration with
    | some d => pure ((← v.declaration place d (v.walkDeclaration place d)).settle d)
    | none => pure .unchanged
  let misc ← Visit.each (v.walkMisc place) p.misc
  return if declaration.isChanged || misc.isChanged then
      .changed { p with
        declaration := (declaration.map some).getD p.declaration
        misc := misc.getD p.misc }
    else .unchanged

def walkDocument (v : Visitor m) (place : Place) (d : Document) : m (Visit Document) := do
  Cancellable.checkpoint
  let prolog := (← v.prolog place d.prolog (v.walkProlog place d.prolog)).settle d.prolog
  let root := (← v.tag place d.root (v.walkTag place d.root)).settle d.root
  let epilog ← Visit.each (v.walkMisc place) d.epilog
  return if prolog.isChanged || root.isChanged || epilog.isChanged then
      .changed { d with
        prolog := prolog.getD d.prolog
        root := root.getD d.root
        epilog := epilog.getD d.epilog }
    else .unchanged

def placeOf (d : Document) : Place := { path := d.path, kind := d.kind }

def visit (v : Visitor m) (d : Document) : m (Visit Document) :=
  return (← v.document (placeOf d) d (v.walkDocument (placeOf d) d)).settle d

end Visitor
end Emend.Markup
