import Emend.Proofs.Markup.Rebuild

/-! # Trees of references

Nodes in memory refer to the nodes they hold, and several trees may share a node. A reference remembers
where its node was put before a visit began; nodes made by the visit have no such place. Walks through
references do what walks through plain trees do, up to the places.
-/

namespace Emend.Markup

structure Ref (α : Type) where
  address : Option Nat
  node : α

def Ref.fresh {α : Type} (node : α) : Ref α := ⟨none, node⟩

namespace Shared

mutual

structure Tag where
  id : NodeId
  leading : String
  markers : List Marker
  name : String
  attributes : List (Ref Attribute)
  content : Option (List Content)
  closing : Option (Ref Closing)
  beforeClose : String

inductive Content where
  | tag (node : Ref Tag)
  | charData (node : Ref CharData)
  | comment (node : Ref Comment)
  | instruction (node : Ref Instruction)

end

inductive Misc where
  | comment (node : Ref Comment)
  | instruction (node : Ref Instruction)
  | docType (node : Ref DocType)

structure Declaration where
  id : NodeId
  leading : String
  attributes : List (Ref Attribute)
  beforeClose : String

structure Prolog where
  id : NodeId
  declaration : Option (Ref Declaration)
  misc : List Misc

structure Document where
  id : NodeId
  path : FilePath
  kind : SourceKind
  markers : List Marker
  bom : Bool
  prolog : Ref Prolog
  root : Ref Tag
  epilog : List Misc
  eof : String

end Shared

/-- Data with references; `erase` forgets the places, and `allocate` makes every node new. -/
class Erasable (α : Type) (β : outParam Type) where
  erase : α → β
  allocate : β → α
  erase_allocate : ∀ b, erase (allocate b) = b

export Erasable (erase allocate erase_allocate)

instance (priority := low) {α : Type} [DecidableEq α] : Erasable (Ref α) α := ⟨Ref.node, Ref.fresh, fun _ => rfl⟩

instance {α β : Type} [Erasable α β] : Erasable (Option α) (Option β) where
  erase := Option.map erase
  allocate := Option.map allocate
  erase_allocate b := by simp [Function.comp_def, erase_allocate]

instance {α β : Type} [Erasable α β] : Erasable (List α) (List β) where
  erase := List.map erase
  allocate := List.map allocate
  erase_allocate bs := by simp [Function.comp_def, erase_allocate]

/-- The same means equal without the places. -/
instance {α β : Type} [Erasable α β] [DecidableEq β] : SameAs α := ⟨fun a b => decide (erase a = erase b)⟩

namespace Shared

mutual

def Tag.erase : Tag → Markup.Tag
  | ⟨id, leading, markers, name, attributes, content, closing, beforeClose⟩ =>
    ⟨id, leading, markers, name, Erasable.erase attributes, eraseBody content, Erasable.erase closing, beforeClose⟩

def Content.erase : Content → Markup.Content
  | .tag ⟨_, t⟩ => .tag t.erase
  | .charData r => .charData r.node
  | .comment r => .comment r.node
  | .instruction r => .instruction r.node

def eraseBody : Option (List Content) → Option (List Markup.Content)
  | none => none
  | some items => some (eraseAll items)

def eraseAll : List Content → List Markup.Content
  | [] => []
  | c :: cs => c.erase :: eraseAll cs

end

mutual

def Tag.allocate : Markup.Tag → Tag
  | ⟨id, leading, markers, name, attributes, content, closing, beforeClose⟩ =>
    ⟨id, leading, markers, name, Erasable.allocate attributes, allocateBody content, Erasable.allocate closing,
      beforeClose⟩

def Content.allocate : Markup.Content → Content
  | .tag t => .tag (.fresh (Tag.allocate t))
  | .charData d => .charData (.fresh d)
  | .comment c => .comment (.fresh c)
  | .instruction i => .instruction (.fresh i)

def allocateBody : Option (List Markup.Content) → Option (List Content)
  | none => none
  | some items => some (allocateAll items)

def allocateAll : List Markup.Content → List Content
  | [] => []
  | c :: cs => Content.allocate c :: allocateAll cs

end

mutual

theorem Tag.erase_allocate : (t : Markup.Tag) → (Tag.allocate t).erase = t
  | ⟨id, leading, markers, name, attributes, content, closing, beforeClose⟩ => by
    rw [Tag.allocate, Tag.erase, Erasable.erase_allocate, Erasable.erase_allocate, eraseBody_allocateBody content]

theorem Content.erase_allocate : (c : Markup.Content) → (Content.allocate c).erase = c
  | .tag t => congrArg Markup.Content.tag (Tag.erase_allocate t)
  | .charData _ => rfl
  | .comment _ => rfl
  | .instruction _ => rfl

theorem eraseBody_allocateBody : (content : Option (List Markup.Content)) → eraseBody (allocateBody content) = content
  | none => rfl
  | some items => congrArg some (eraseAll_allocateAll items)

theorem eraseAll_allocateAll : (cs : List Markup.Content) → eraseAll (allocateAll cs) = cs
  | [] => rfl
  | c :: cs => by rw [allocateAll, eraseAll, Content.erase_allocate c, eraseAll_allocateAll cs]

end

instance : Erasable (Ref Tag) Markup.Tag where
  erase r := r.node.erase
  allocate t := .fresh (Tag.allocate t)
  erase_allocate := Tag.erase_allocate

instance : Erasable Content Markup.Content where
  erase := Content.erase
  allocate := Content.allocate
  erase_allocate := Content.erase_allocate

theorem erase_tag (r : Ref Tag) : erase (Content.tag r) = .tag (erase r) := rfl
theorem erase_charData (r : Ref CharData) : erase (Content.charData r) = .charData (erase r) := rfl
theorem erase_comment (r : Ref Comment) : erase (Content.comment r) = .comment (erase r) := rfl
theorem erase_instruction (r : Ref Instruction) : erase (Content.instruction r) = .instruction (erase r) := rfl

theorem eraseAll_eq (cs : List Content) : eraseAll cs = erase cs := by
  induction cs with
  | nil => rfl
  | cons c cs ih => exact congrArg (erase c :: ·) ih

theorem erase_ref_tag (address : Option Nat) (t : Tag) :
    erase (Ref.mk address t) = ⟨t.id, t.leading, t.markers, t.name, erase t.attributes, erase t.content,
      erase t.closing, t.beforeClose⟩ := by
  obtain ⟨id, leading, markers, name, attributes, content, closing, beforeClose⟩ := t
  cases content with
  | none => rfl
  | some items => exact congrArg (fun cs => Markup.Tag.mk id leading markers name _ (some cs) _ _) (eraseAll_eq items)

def Misc.erase : Misc → Markup.Misc
  | .comment r => .comment r.node
  | .instruction r => .instruction r.node
  | .docType r => .docType r.node

def Misc.allocate : Markup.Misc → Misc
  | .comment c => .comment (.fresh c)
  | .instruction i => .instruction (.fresh i)
  | .docType d => .docType (.fresh d)

instance : Erasable Misc Markup.Misc where
  erase := Misc.erase
  allocate := Misc.allocate
  erase_allocate i := by cases i <;> rfl

theorem erase_misc_comment (r : Ref Comment) : erase (Misc.comment r) = .comment (erase r) := rfl
theorem erase_misc_instruction (r : Ref Instruction) : erase (Misc.instruction r) = .instruction (erase r) := rfl
theorem erase_misc_docType (r : Ref DocType) : erase (Misc.docType r) = .docType (erase r) := rfl

def Declaration.erase (d : Declaration) : Markup.Declaration :=
  ⟨d.id, d.leading, Erasable.erase d.attributes, d.beforeClose⟩

instance : Erasable (Ref Declaration) Markup.Declaration where
  erase r := r.node.erase
  allocate d := .fresh ⟨d.id, d.leading, Erasable.allocate d.attributes, d.beforeClose⟩
  erase_allocate d := by simp only [Declaration.erase, Ref.fresh, Erasable.erase_allocate]

theorem erase_ref_declaration (r : Ref Declaration) :
    erase r = ⟨r.node.id, r.node.leading, erase r.node.attributes, r.node.beforeClose⟩ := rfl

def Prolog.erase (p : Prolog) : Markup.Prolog := ⟨p.id, Erasable.erase p.declaration, Erasable.erase p.misc⟩

instance : Erasable (Ref Prolog) Markup.Prolog where
  erase r := r.node.erase
  allocate p := .fresh ⟨p.id, Erasable.allocate p.declaration, Erasable.allocate p.misc⟩
  erase_allocate p := by simp only [Prolog.erase, Ref.fresh, Erasable.erase_allocate]

theorem erase_ref_prolog (r : Ref Prolog) :
    erase r = ⟨r.node.id, erase r.node.declaration, erase r.node.misc⟩ := rfl

def Document.erase (d : Document) : Markup.Document where
  id := d.id
  path := d.path
  kind := d.kind
  markers := d.markers
  bom := d.bom
  prolog := Erasable.erase d.prolog
  root := Erasable.erase d.root
  epilog := Erasable.erase d.epilog
  eof := d.eof

instance : Erasable (Ref Document) Markup.Document where
  erase r := r.node.erase
  allocate d := .fresh ⟨d.id, d.path, d.kind, d.markers, d.bom, Erasable.allocate d.prolog, Erasable.allocate d.root,
    Erasable.allocate d.epilog, d.eof⟩
  erase_allocate d := by simp only [Document.erase, Ref.fresh, Erasable.erase_allocate]

theorem erase_ref_document (r : Ref Document) :
    erase r = ⟨r.node.id, r.node.path, r.node.kind, r.node.markers, r.node.bom, erase r.node.prolog, erase r.node.root,
      erase r.node.epilog, r.node.eof⟩ := rfl

structure Visitor (m : Type → Type) where
  prolog : Place → Ref Prolog → m (Visit (Ref Prolog)) → m (Visit (Ref Prolog))
  declaration : Place → Ref Declaration → m (Visit (Ref Declaration)) → m (Visit (Ref Declaration))
  tag : Place → Ref Tag → m (Visit (Ref Tag)) → m (Visit (Ref Tag))
  attr : Place → Ref Attribute → m (Visit (Ref Attribute))
  charData : Place → Ref CharData → m (Visit (Ref CharData))
  comment : Place → Ref Comment → m (Visit (Ref Comment))
  instruction : Place → Ref Instruction → m (Visit (Ref Instruction))
  docType : Place → Ref DocType → m (Visit (Ref DocType))

namespace Visitor

variable {m : Type → Type} [Monad m] [Cancellable m]

mutual

def walkTag (v : Visitor m) (place : Place) : Ref Tag → m (Visit (Ref Tag))
  | ⟨_, ⟨id, leading, markers, name, attributes, content, closing, beforeClose⟩⟩ => do
    Cancellable.checkpoint
    let inside := place.enter name
    let newAttributes ← Visit.each (v.attr inside) attributes
    let newContent ← match content with
      | some items => walkItems v inside items
      | none => pure .unchanged
    return if newAttributes.isChanged || newContent.isChanged then
        .changed (.fresh ⟨id, leading, markers, name, newAttributes.getD attributes,
          (newContent.map some).getD content, closing, beforeClose⟩)
      else .unchanged

def walkContent (v : Visitor m) (place : Place) : Content → m (Visit Content)
  | .tag r => return (← v.tag place r (walkTag v place r)).map .tag
  | .charData r => return (← v.charData place r).map .charData
  | .comment r => return (← v.comment place r).map .comment
  | .instruction r => return (← v.instruction place r).map .instruction

def walkItems (v : Visitor m) (place : Place) : List Content → m (Visit (List Content))
  | [] => return .unchanged
  | c :: cs => do
    let x := (← walkContent v place c).settle c
    let xs ← walkItems v place cs
    return if x.isChanged || xs.isChanged then .changed (x.getD c :: xs.getD cs) else .unchanged

end

def walkMisc (v : Visitor m) (place : Place) : Misc → m (Visit Misc)
  | .comment r => return (← v.comment place r).map .comment
  | .instruction r => return (← v.instruction place r).map .instruction
  | .docType r => return (← v.docType place r).map .docType

def walkDeclaration (v : Visitor m) (place : Place) (r : Ref Declaration) : m (Visit (Ref Declaration)) := do
  return (← Visit.each (v.attr place) r.node.attributes).map fun attributes => .fresh { r.node with attributes }

def walkProlog (v : Visitor m) (place : Place) (r : Ref Prolog) : m (Visit (Ref Prolog)) := do
  let declaration ← match r.node.declaration with
    | some d => pure ((← v.declaration place d (v.walkDeclaration place d)).settle d)
    | none => pure .unchanged
  let misc ← Visit.each (v.walkMisc place) r.node.misc
  return if declaration.isChanged || misc.isChanged then
      .changed (.fresh { r.node with
        declaration := (declaration.map some).getD r.node.declaration
        misc := misc.getD r.node.misc })
    else .unchanged

def walkDocument (v : Visitor m) (place : Place) (r : Ref Document) : m (Visit (Ref Document)) := do
  Cancellable.checkpoint
  let d := r.node
  let prolog := (← v.prolog place d.prolog (v.walkProlog place d.prolog)).settle d.prolog
  let root := (← v.tag place d.root (v.walkTag place d.root)).settle d.root
  let epilog ← Visit.each (v.walkMisc place) d.epilog
  return if prolog.isChanged || root.isChanged || epilog.isChanged then
      .changed (.fresh { d with
        prolog := prolog.getD d.prolog
        root := root.getD d.root
        epilog := epilog.getD d.epilog })
    else .unchanged

end Visitor

end Shared
end Emend.Markup
