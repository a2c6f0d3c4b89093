import Emend.Text.Search

/-! # File paths

Slash-separated paths. A path keeps its spelling; its components say which file it names: empty
segments and `.` segments count only at the start.
-/

namespace Emend

structure FilePath where
  text : String
deriving DecidableEq, Inhabited

namespace FilePath

inductive Component where
  | root
  | current
  | parent
  | name (s : String)
deriving DecidableEq

def Component.text : Component → String
  | root => "/"
  | current => "."
  | parent => ".."
  | name s => s

def isAbsolute (p : FilePath) : Bool := p.text.toList.head? == some '/'

/-- Empty segments and `.` say nothing but at the start. -/
def isTrivial (segment : List Char) : Bool := segment == [] || segment == ['.']

def segments (p : FilePath) : List (List Char) := Text.splitWhere (· == '/') p.text.toList

/-- What a path may start with: the slash of an absolute path, or a `.`. -/
def lead? (p : FilePath) : Option Component :=
  match p.segments with
  | [] :: _ :: _ => some .root
  | ['.'] :: _ => some .current
  | _ => none

private def named (segment : List Char) : Option Component :=
  if isTrivial segment then none
  else if segment = ['.', '.'] then some .parent
  else some (.name (String.ofList segment))

/-- The components: a leading slash, or a leading `.`, then every segment that is neither empty nor `.`. -/
def components (p : FilePath) : List Component := p.lead?.toList ++ p.segments.filterMap named

/-- Two spellings of one path. -/
def same (p q : FilePath) : Bool := p.components == q.components

def fileName? (p : FilePath) : Option String :=
  match p.components.getLast? with
  | some (.name s) => some s
  | _ => none

/-- What follows the last dot of the file name, unless that dot comes first. -/
def extension? (p : FilePath) : Option String := do
  let file ← p.fileName?
  let (stem, ext) ← Text.breakLast? (· == '.') file.toList
  if stem = [] then none else some (String.ofList ext)

def join (p q : FilePath) : FilePath :=
  if q.isAbsolute then q
  else if p.text.isEmpty || p.text.toList.getLast? == some '/' then ⟨p.text ++ q.text⟩
  else ⟨p.text ++ "/" ++ q.text⟩

def ofSegments (segments : List (List Char)) : FilePath :=
  if segments = [[]] then ⟨"/"⟩ else ⟨String.ofList (List.intercalate ['/'] segments)⟩

def ofNames (names : List String) : FilePath := ⟨"/" ++ "/".intercalate names⟩

def trimmed (segments : List (List Char)) : List (List Char) := (segments.reverse.dropWhile isTrivial).reverse

def splitLead (p : FilePath) : List (List Char) × List (List Char) := p.segments.splitAt p.lead?.toList.length

/-- Without the last component; nothing lies above the root or the empty path. -/
def parent? (p : FilePath) : Option FilePath :=
  let (start, behind) := p.splitLead
  match p.components.getLast? with
  | some (.name _) | some .parent => some (ofSegments (start ++ trimmed (trimmed behind).dropLast))
  | some .current => some ⟨""⟩
  | _ => none

def dropNamed : (n : Nat) → List (List Char) → List (List Char)
  | 0, segments => segments.dropWhile isTrivial
  | n + 1, segments => dropNamed n ((segments.dropWhile isTrivial).drop 1)

def relativeTo? (p base : FilePath) : Option FilePath :=
  if base.components.isPrefixOf p.components then
    if base.components.isEmpty then some (ofSegments (p.splitLead.1 ++ trimmed p.splitLead.2))
    else some (ofSegments (trimmed (dropNamed (base.segments.filterMap named).length p.segments)))
  else none

end FilePath
end Emend
