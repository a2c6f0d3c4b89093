import Emend.FilePath

/-! # Errors

What can go wrong, the text that reports it, and whether only one file is affected.
-/

namespace Emend

inductive ErrorKind where
  | parse
  | visitor
  | consistency
  | serialization
  | config
  | io
  | cancelled
  | internal
deriving DecidableEq, Repr

inductive Error where
  | parse (path : FilePath) (message : String) (line column : Nat)
  | visitor (recipe : String) (path : FilePath) (message : String)
  | consistency (path : FilePath) (message : String)
  | serialization (message : String)
  | config (message : String)
  | io (path : FilePath) (reason : String)
  | cancelled
  | internal (message : String)
deriving DecidableEq

namespace Error

def kind : Error → ErrorKind
  | parse .. => .parse
  | visitor .. => .visitor
  | consistency .. => .consistency
  | serialization _ => .serialization
  | config _ => .config
  | io .. => .io
  | cancelled => .cancelled
  | internal _ => .internal

def message : Error → String
  | parse path message line column =>
    s!"Parse error in '{path.text}' at {line}:{column}: {message}"
  | visitor recipe path message => s!"Visitor error in recipe '{recipe}' for '{path.text}': {message}"
  | consistency path message => s!"Consistency error for '{path.text}': {message}"
  | serialization message => s!"Serialization error: {message}"
  | config message => s!"Configuration error: {message}"
  | io path reason => s!"IO error for path '{path.text}': {reason}"
  | cancelled => "Execution cancelled"
  | internal message => s!"Internal error: {message}"

/-- Only the file at hand is lost; other files can go on. -/
def isRecoverable (e : Error) : Bool :=
  match e.kind with
  | .parse | .visitor | .consistency => true
  | _ => false

end Error

/-- A recoverable error becomes the absence of a value. -/
def recoverable {α : Type u} : Except Error α → Except Error (Option α)
  | .ok a => .ok (some a)
  | .error e => if e.isRecoverable then .ok none else .error e

def discardError {α : Type u} : Except Error α → Option α
  | .ok a => some a
  | .error _ => none

end Emend
