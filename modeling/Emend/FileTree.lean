import Emend.Batch

/-! # File trees

The files of a system as a value. A file, a folder or a link is known by the names on the way to it from the root. A
relative path starts from one of the folders, and a path may lead through links.
-/

namespace Emend

/-- `here` is the folder that relative paths start from. -/
structure FileTree where
  files : List (List String × ByteArray) := []
  folders : List (List String) := []
  links : List (List String × FilePath) := []
  here : List String := []

inductive FileFault where
  | missing
  | throughFile
  | isFolder
  | notText
  | tooManyLinks
  | nul
deriving DecidableEq

def FileFault.message : FileFault → String
  | missing => "No such file or directory (os error 2)"
  | throughFile => "Not a directory (os error 20)"
  | isFolder => "Is a directory (os error 21)"
  | notText => "stream did not contain valid UTF-8"
  | tooManyLinks => "Too many levels of symbolic links (os error 40)"
  | nul => "file name contained an unexpected NUL byte"

namespace FileTree

def content? (t : FileTree) (names : List String) : Option ByteArray := t.files.lookup names

def hasFile (t : FileTree) (names : List String) : Bool := (t.content? names).isSome

/-- The root, a folder put into the tree, or what lies above another entry. -/
def hasFolder (t : FileTree) (names : List String) : Bool :=
  let above (entry : List String) := names.isPrefixOf entry && names != entry
  names.isEmpty || names.isPrefixOf t.here || t.folders.any names.isPrefixOf || t.files.any (above ·.1) ||
    t.links.any (above ·.1)

/-- Where a path starts that is met in a folder. -/
def start (path : FilePath) (folder : List String) : List String := if path.isAbsolute then [] else folder

/-- What a way through a tree comes to: its end, or a link in a folder with more of the way behind it. -/
inductive Stop where
  | arrived (names : List String)
  | link (folder : List String) (target : FilePath) (rest : List String)

/-- The way up to the next link. Only folders lead on, and nothing lies above the root. -/
def walkOn (t : FileTree) (folder : List String) : List String → Except FileFault Stop
  | [] => .ok (.arrived folder)
  | segment :: rest =>
    if !t.hasFolder folder then .error .throughFile
    else if segment = "" ∨ segment = "." then t.walkOn folder rest
    else if segment = ".." then t.walkOn folder.dropLast rest
    else
      let next := folder ++ [segment]
      match t.links.lookup next with
      | some target => .ok (.link folder target rest)
      | none => if t.hasFile next || t.hasFolder next then t.walkOn next rest else .error .missing

def maxLinks : Nat := 40

def follow (t : FileTree) (links : Nat) (folder segments : List String) : Except FileFault (List String) :=
  match t.walkOn folder segments, links with
  | .error fault, _ => .error fault
  | .ok (.arrived names), _ => .ok names
  | .ok (.link _ _ _), 0 => .error .tooManyLinks
  | .ok (.link folder target rest), links + 1 =>
    t.follow links (start target folder) (target.segments.map String.ofList ++ rest)

/-- The names of what a path leads to, the same for every path to it. -/
def locate (t : FileTree) (path : FilePath) : Except FileFault (List String) :=
  if path.text.toList.contains '\x00' then .error .nul
  else if path.text.isEmpty then .error .missing
  else t.follow maxLinks (start path t.here) (path.segments.map String.ofList)

def «exists» (t : FileTree) (path : FilePath) : Bool := (t.locate path).toBool

def isFolder (t : FileTree) (path : FilePath) : Bool := (t.locate path).toOption.any t.hasFolder

def isFile (t : FileTree) (path : FilePath) : Bool := (t.locate path).toOption.any t.hasFile

def namesOf (t : FileTree) (path : FilePath) : List String :=
  start path t.here ++ (path.segments.filter (!FilePath.isTrivial ·)).map String.ofList

def addFile (t : FileTree) (path : FilePath) (content : ByteArray) : FileTree :=
  let names := t.namesOf path
  { t with files := (names, content) :: t.files.filter (·.1 != names) }

def addFolder (t : FileTree) (path : FilePath) : FileTree := { t with folders := t.namesOf path :: t.folders }

def file (t : FileTree) (path : FilePath) : Except FileFault (List String × ByteArray) :=
  match t.locate path with
  | .error f => .error f
  | .ok names =>
    match t.content? names with
    | some content => .ok (names, content)
    | none => .error .isFolder

def decode (content : ByteArray) : Except FileFault String :=
  match String.fromUTF8? content with
  | some s => .ok s
  | none => .error .notText

def read (t : FileTree) (path : FilePath) : Except Error String :=
  match t.file path >>= fun (_, content) => decode content with
  | .ok s => .ok s
  | .error f => .error (.io path f.message)

theorem decode_toUTF8 (s : String) : decode s.toUTF8 = .ok s := by
  rw [decode, String.toUTF8_eq_toByteArray, String.fromUTF8?, dif_pos s.isValidUTF8]
  rfl

theorem read_of_text {t : FileTree} {path : FilePath} {names : List String} {s : String}
    (h : t.file path = .ok (names, s.toUTF8)) : t.read path = .ok s := by
  have content : (t.file path >>= fun (_, content) => decode content) = .ok s := by
    rw [h]
    exact decode_toUTF8 s
  rw [read, content]

/-- Names in order: folder by folder, each one's entries by name. -/
def namesLe : List String → List String → Bool
  | [], _ => true
  | _ :: _, [] => false
  | a :: as, b :: bs => a < b || (a == b && namesLe as bs)

/-- The paths of all files in a folder, and in those below it; links below it are left aside. -/
def walk (t : FileTree) (folder : FilePath) : List FilePath :=
  match t.locate folder with
  | .ok names =>
    let below := t.files.filterMap fun (file, _) =>
      if names.isPrefixOf file && names != file then some (file.drop names.length) else none
    (below.mergeSort namesLe).map fun rest => folder.join ⟨"/".intercalate rest⟩
  | .error _ => []

end FileTree

/-- The file at `path`, known by its path from `base` if it lies below that. -/
def Input.read (t : FileTree) (path : FilePath) (base : Option FilePath) : Except Error Input :=
  (t.read path).map fun text => ⟨(base.bind path.relativeTo?).getD path, text⟩

end Emend
