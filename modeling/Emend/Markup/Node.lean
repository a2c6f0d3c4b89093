import Emend.Marker
import Emend.SourceKind
import Emend.Markup.Entity

/-! # Markup trees

A document keeps every character of its text: the blanks in front of each construct (`leading`), the
blanks before a closing bracket, the quotes and the spacing of attributes. Character data, attribute
values, comments and the rest are kept as written.
-/

namespace Emend.Markup

structure Attribute where
  id : NodeId
  leading : String
  markers : List Marker
  key : String
  beforeEquals : String
  afterEquals : String
  quote : Quote
  rawValue : String
deriving DecidableEq, Inhabited

structure Closing where
  id : NodeId
  leading : String
  name : String
  beforeClose : String
deriving DecidableEq, Inhabited

structure CharData where
  id : NodeId
  leading : String
  cdata : Bool
  text : String
deriving DecidableEq, Inhabited

structure Comment where
  id : NodeId
  leading : String
  text : String
deriving DecidableEq, Inhabited

/-- A processing instruction; `content` begins right after the target. -/
structure Instruction where
  id : NodeId
  leading : String
  target : String
  content : String
deriving DecidableEq, Inhabited

structure DocType where
  id : NodeId
  leading : String
  body : String
deriving DecidableEq, Inhabited

mutual

/-- An element. A self-closing one has neither content nor closing tag. -/
structure Tag where
  id : NodeId
  leading : String
  markers : List Marker
  name : String
  attributes : List Attribute
  content : Option (List Content)
  closing : Option Closing
  beforeClose : String

inductive Content where
  | tag (node : Tag)
  | charData (node : CharData)
  | comment (node : Comment)
  | instruction (node : Instruction)

end

/-- What may stand before the root element; after it, document types may not. -/
inductive Misc where
  | comment (node : Comment)
  | instruction (node : Instruction)
  | docType (node : DocType)
deriving DecidableEq, Inhabited

structure Declaration where
  id : NodeId
  leading : String
  attributes : List Attribute
  beforeClose : String
deriving DecidableEq, Inhabited

structure Prolog where
  id : NodeId
  declaration : Option Declaration
  misc : List Misc
deriving DecidableEq, Inhabited

instance : Inhabited Tag := ⟨⟨default, "", [], "", [], none, none, ""⟩⟩
instance : Inhabited Content := ⟨.tag default⟩

mutual

def Tag.decEq : (a b : Tag) → Decidable (a = b)
  | ⟨i, l, m, n, as, c, cl, bc⟩, ⟨i', l', m', n', as', c', cl', bc'⟩ =>
    if h : i = i' ∧ l = l' ∧ m = m' ∧ n = n' ∧ as = as' ∧ cl = cl' ∧ bc = bc' then
      match Content.decEqBody c c' with
      | isTrue hc => isTrue (by obtain ⟨rfl, rfl, rfl, rfl, rfl, rfl, rfl⟩ := h; rw [hc])
      | isFalse hc => isFalse (by intro e; cases e; exact hc rfl)
    else isFalse (by intro e; cases e; exact h ⟨rfl, rfl, rfl, rfl, rfl, rfl, rfl⟩)

def Content.decEq : (a b : Content) → Decidable (a = b)
  | .tag t, .tag u =>
    match Tag.decEq t u with
    | isTrue h => isTrue (by rw [h])
    | isFalse h => isFalse (by intro e; cases e; exact h rfl)
  | .charData t, .charData u => decidable_of_iff (t = u) (by simp)
  | .comment t, .comment u => decidable_of_iff (t = u) (by simp)
  | .instruction t, .instruction u => decidable_of_iff (t = u) (by simp)
  | .tag _, .charData _ | .tag _, .comment _ | .tag _, .instruction _
  | .charData _, .tag _ | .charData _, .comment _ | .charData _, .instruction _
  | .comment _, .tag _ | .comment _, .charData _ | .comment _, .instruction _
  | .instruction _, .tag _ | .instruction _, .charData _ | .instruction _, .comment _ => isFalse nofun

def Content.decEqBody : (a b : Option (List Content)) → Decidable (a = b)
  | none, none => isTrue rfl
  | none, some _ | some _, none => isFalse nofun
  | some a, some b =>
    match Content.decEqAll a b with
    | isTrue h => isTrue (by rw [h])
    | isFalse h => isFalse (by intro e; cases e; exact h rfl)

def Content.decEqAll : (a b : List Content) → Decidable (a = b)
  | [], [] => isTrue rfl
  | [], _ :: _ | _ :: _, [] => isFalse nofun
  | a :: r, b :: s =>
    match Content.decEq a b with
    | isFalse h => isFalse (by intro e; cases e; exact h rfl)
    | isTrue h =>
      match Content.decEqAll r s with
      | isTrue h' => isTrue (by rw [h, h'])
      | isFalse h' => isFalse (by intro e; cases e; exact h' rfl)

end

instance : DecidableEq Tag := Tag.decEq
instance : DecidableEq Content := Content.decEq

structure Document where
  id : NodeId
  path : FilePath
  kind : SourceKind
  markers : List Marker
  bom : Bool
  prolog : Prolog
  root : Tag
  epilog : List Misc
  eof : String
deriving DecidableEq, Inhabited

def Content.id : Content → NodeId
  | tag t => t.id
  | charData d => d.id
  | comment c => c.id
  | instruction i => i.id

def Content.tag? : Content → Option Tag
  | tag t => some t
  | _ => none

def maxDepth : Nat := 256

end Emend.Markup
