import Emend.Settings.Inheritance

/-! # Finding the settings file

A folder's settings are in the first file with one of the usual names, in the folder itself or in the
closest one above it.
-/

namespace Emend.Settings

def fileNames : List String := [".remoldrc.json", ".remoldrc.toml", "remold.yaml", "remold.yml", "remold.json"]

def upwards (names : List String) : List (List String) :=
  (List.range (names.length + 1)).reverse.map names.take

def discover (t : FileTree) (start : FilePath) : Except Error (Option FilePath) :=
  match t.locate start with
  | .error fault => .error (.config s!"Invalid path: {fault.message}")
  | .ok names =>
    .ok (((upwards names).flatMap fun folder => fileNames.map fun file => .ofNames (folder ++ [file])).find? t.isFile)

/-- The settings of the given file; without one, of the file found from `start`; without that too, the defaults. -/
def loadFor (t : FileTree) (path start : Option FilePath) : Except Error Settings :=
  match path with
  | some path =>
    if t.exists path then load t path else .error (.config s!"Config file not found: {path.text}")
  | none => do
    match ← discover t (start.getD ⟨"."⟩) with
    | some path => load t path
    | none => return {}

end Emend.Settings
