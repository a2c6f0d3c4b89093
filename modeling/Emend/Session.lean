import Emend.Context
import Emend.Json.Basic
import Emend.Visit

/-! # Visits as computations

A visit works in a session: the supply of ids, the context of the run, and a journal for notes. It ends
with a value, an error, or a crash of the visitor; what it did to the session stays in each case.
-/

namespace Emend

/-- A crash may come without a message. -/
inductive Abort where
  | error (e : Error)
  | crash (message : Option String)
deriving DecidableEq

structure Session where
  supply : Supply := {}
  context : Context := {}
  journal : Array Json := #[]

abbrev Visiting := ExceptT Abort (StateM Session)

class Cancellable (m : Type → Type) where
  /-- Stops here if that was asked for. -/
  checkpoint : m Unit

namespace Visiting

def context : Visiting Context := return (← get).context

def modifyContext (f : Context → Context) : Visiting Unit := modify fun s => { s with context := f s.context }

def note (j : Json) : Visiting Unit := modify fun s => { s with journal := s.journal.push j }

def fresh {α : Type} (x : Fresh α) : Visiting α := do
  let s ← get
  let (a, supply) := x.run s.supply
  set { s with supply }
  return a

def fail {α : Type} (e : Error) : Visiting α := throw (.error e)

def crash {α : Type} (message : String) : Visiting α := throw (.crash (some message))

def pom (d : Markup.Document) : Visiting (Option Pom) := do
  let c ← context
  let ((summary, _), cache) := Pom.cached d c.cache
  modifyContext fun c => { c with cache }
  return summary

end Visiting

instance : Cancellable Visiting where
  checkpoint := do if (← Visiting.context).cancelled then Visiting.fail .cancelled

instance {σ : Type} {m : Type → Type} [Monad m] [Cancellable m] : Cancellable (StateT σ m) where
  checkpoint := StateT.lift Cancellable.checkpoint

end Emend
