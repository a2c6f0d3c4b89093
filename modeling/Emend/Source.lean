import Emend.Markup.Print
import Emend.Visit

/-! # Source files

A file is a markup document or plain text. Its path and kind come with it.
-/

namespace Emend

structure PlainText where
  id : NodeId
  path : FilePath
  markers : List Marker
  text : String
deriving DecidableEq, Inhabited

def PlainText.new (path : FilePath) (text : String) : Fresh PlainText :=
  return { id := ← NodeId.fresh, path, markers := [], text }

inductive Source where
  | markup (document : Markup.Document)
  | text (text : PlainText)
deriving DecidableEq, Inhabited

namespace Source

def id : Source → NodeId
  | markup d => d.id
  | text t => t.id

def path : Source → FilePath
  | markup d => d.path
  | text t => t.path

def kind : Source → SourceKind
  | markup d => d.kind
  | text _ => .text

def markers : Source → List Marker
  | markup d => d.markers
  | text t => t.markers

def print : Source → String
  | markup d => d.print
  | text t => t.text

/-- The same but for the spelling of the path. -/
instance : SameAs Source where
  same
    | .markup a, .markup b => a.path.same b.path && decide ({ a with path := b.path } = b)
    | .text a, .text b => a.path.same b.path && decide ({ a with path := b.path } = b)
    | _, _ => false

end Source
end Emend
