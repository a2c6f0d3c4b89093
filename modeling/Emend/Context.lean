import Emend.Error
import Emend.Pom

/-! # The context of a run

Failures reported so far, the request to stop, a cache and messages that visitors share. A context belongs
to one run and holds no trees of its own.
-/

namespace Emend

/-- A failure of one file. Without a recipe it is one of reading the file. -/
structure Failure where
  path : FilePath
  recipe : Option String
  message : String
  recoverable : Bool
deriving DecidableEq

def Failure.of (path : FilePath) (recipe : Option String) (e : Error) : Failure :=
  { path, recipe, message := e.message, recoverable := e.isRecoverable }

/-- What the cache can hold. A summary remembers the document it was made from. -/
inductive Cached where
  | text (s : String)
  | number (n : UInt64)
  | pom (document : Markup.Document) (summary : Option Pom)

/-- One of the types in the cache. A value of another type under the same key does not count. -/
structure Slot (α : Type) where
  wrap : α → Cached
  unwrap? : Cached → Option α
  unwrap_wrap : ∀ a, unwrap? (wrap a) = some a

namespace Slot

def text : Slot String where
  wrap := .text
  unwrap? | .text s => some s | _ => none
  unwrap_wrap _ := rfl

def number : Slot UInt64 where
  wrap := .number
  unwrap? | .number n => some n | _ => none
  unwrap_wrap _ := rfl

def pom : Slot (Markup.Document × Option Pom) where
  wrap x := .pom x.1 x.2
  unwrap? | .pom d p => some (d, p) | _ => none
  unwrap_wrap _ := rfl

end Slot

/-- One value a key. -/
structure Cache where
  entries : List (String × Cached) := []

namespace Cache

def size (c : Cache) : Nat := c.entries.length

def get? {α : Type} (c : Cache) (slot : Slot α) (key : String) : Option α :=
  (c.entries.lookup key).bind slot.unwrap?

def erase (c : Cache) (key : String) : Cache := ⟨c.entries.filter (·.1 ≠ key)⟩

def insert {α : Type} (c : Cache) (slot : Slot α) (key : String) (a : α) : Cache :=
  ⟨(key, slot.wrap a) :: (c.erase key).entries⟩

def getOrInsert {α : Type} (c : Cache) (slot : Slot α) (key : String) (a : α) : α × Cache :=
  match c.get? slot key with
  | some b => (b, c)
  | none => (a, c.insert slot key a)

theorem get?_insert {α : Type} (c : Cache) (slot : Slot α) (key : String) (a : α) :
    (c.insert slot key a).get? slot key = some a := by
  simp [insert, get?, slot.unwrap_wrap]

end Cache

/-- `heard` is what a listener, if there is one, was told. -/
structure Context where
  listening : Bool := false
  heard : List Failure := []
  failures : List Failure := []
  cancelled : Bool := false
  cache : Cache := {}
  messages : List (String × String) := []

namespace Context

def report (c : Context) (f : Failure) : Context :=
  { c with
    heard := if c.listening then c.heard ++ [f] else c.heard
    failures := c.failures ++ [f] }

def cancel (c : Context) : Context := { c with cancelled := true }

def put (c : Context) (key value : String) : Context :=
  { c with messages := (key, value) :: c.messages.filter (·.1 ≠ key) }

def message? (c : Context) (key : String) : Option String := c.messages.lookup key

end Context

def Pom.cacheKey (d : Markup.Document) : String := s!"maven.pom:{d.path.text}"

/-- The summary of a document, from the cache if it was made from an equal one, and whether it was. Where only the same
reference counts as the same document, summaries are made more often, and come out the same. -/
def Pom.cached (d : Markup.Document) (c : Cache) : (Option Pom × Bool) × Cache :=
  match c.get? .pom (Pom.cacheKey d) with
  | some (known, summary) =>
    if known = d then ((summary, true), c)
    else ((Pom.ofDocument? d, false), c.insert .pom (Pom.cacheKey d) (d, Pom.ofDocument? d))
  | none => ((Pom.ofDocument? d, false), c.insert .pom (Pom.cacheKey d) (d, Pom.ofDocument? d))

end Emend
