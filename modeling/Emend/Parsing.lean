import Emend.Error
import Emend.Markup.Numbering
import Emend.Markup.Reader
import Emend.Source

/-! # Reading source files

A parser accepts paths and turns text into a source file; of several the first that accepts is used.
-/

namespace Emend

abbrev Reading := ExceptT Error Fresh

def Markup.Fault.toError (f : Fault) (path : FilePath) (source : String) : Error :=
  .parse path f.cause.message (f.position source).1 (f.position source).2

/-- The kind of a markup file at a path: never plain text. -/
def Markup.kindAt (path : FilePath) : SourceKind :=
  match SourceKind.classify path with
  | .text => .xml
  | kind => kind

/-- The document that `source` writes, in a file at `path`. Nodes get their ids once all of it is read: a text that is
no document takes none, where a reader that numbers as it goes would have used some up. -/
def Markup.Document.parse (path : FilePath) (source : String) : Reading Markup.Document :=
  match Markup.readDocument path (Markup.kindAt path) source.toList with
  | .ok d => ExceptT.lift d.number
  | .error f => throw (f.toError path source)

inductive Parser where
  | markup
  | text
deriving DecidableEq

namespace Parser

def name : Parser → String
  | markup => "xml"
  | text => "text"

def accepts : Parser → FilePath → Bool
  | markup, path => (SourceKind.classify path).isA .xml
  | text, _ => true

def parse : Parser → FilePath → String → Reading Source
  | markup, path, source => .markup <$> Markup.Document.parse path source
  | text, path, source => ExceptT.lift (.text <$> PlainText.new path source)

/-- Markup where it is accepted, plain text for the rest. -/
def standard : List Parser := [markup, text]

def forPath? (parsers : List Parser) (path : FilePath) : Option Parser := parsers.find? (·.accepts path)

def parseWith (parsers : List Parser) (path : FilePath) (source : String) : Reading Source :=
  match forPath? parsers path with
  | some p => p.parse path source
  | none => throw (.parse path "No parser accepts this file" 1 1)

end Parser
end Emend
