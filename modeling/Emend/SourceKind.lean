import Emend.FilePath

/-! # Source kinds

The kind of a file is read off its path. A POM is an XML document, so what accepts XML accepts it.
-/

namespace Emend

inductive SourceKind where
  | text
  | xml
  | mavenPom
deriving DecidableEq, Repr, Inhabited

namespace SourceKind

def base? : SourceKind → Option SourceKind
  | mavenPom => some xml
  | text | xml => none

/-- A file of kind `k` is accepted where `target` is asked for. -/
def isA (k target : SourceKind) : Bool :=
  k == target || k.base? == some target

def pomFileName : String := "pom.xml"

def xmlExtensions : List String := ["xml", "xsd", "xsl", "xslt", "wsdl", "xhtml", "svg", "tld"]

def classify (path : FilePath) : SourceKind :=
  let ext := path.extension?.map String.toLower
  if path.fileName? = some pomFileName ∨ ext = some "pom" then mavenPom
  else if ext.any (xmlExtensions.contains ·) then xml
  else text

def display : SourceKind → String
  | text => "text"
  | xml => "xml"
  | mavenPom => "maven-pom"

def tag : SourceKind → String
  | text => "text"
  | xml => "xml"
  | mavenPom => "mavenPom"

end SourceKind
end Emend
