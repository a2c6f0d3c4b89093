import Emend.Catalogue.Definition
import Emend.Recipes.Builtin
import Emend.Settings.File

/-! # Catalogues

The declared recipes by name, beside the built-in ones. No name is declared twice, nor that of a built-in one.
-/

namespace Emend

structure Declared where
  definition : RecipeDefinition
  origin : Option FilePath := none

structure Catalogue where
  declared : SortedMap Declared := .empty

namespace Catalogue

def find? (c : Catalogue) (name : String) : Option Declared := c.declared.find? name

def definition? (c : Catalogue) (name : String) : Option RecipeDefinition := (c.find? name).map (·.definition)

def contains (c : Catalogue) (name : String) : Bool := Recipes.isBuiltin name || (c.find? name).isSome

def names (c : Catalogue) : List String := Recipes.builtinNames ++ c.declared.keys

/-- Adds a definition under its name, without the white space around it. -/
def register (c : Catalogue) (d : RecipeDefinition) (origin : Option FilePath := none) : Except Error Catalogue :=
  let name := Text.trim d.name
  if name.isEmpty then .error (.config "Recipe definition without a name")
  else if Recipes.isBuiltin name then .error (.config s!"Recipe '{name}' conflicts with a built-in recipe")
  else
    match c.find? name with
    | some other =>
      let place := (other.origin.map (·.text)).getD "<inline>"
      .error (.config s!"Recipe '{name}' is declared more than once (first in {place})")
    | none => .ok ⟨c.declared.insert name ⟨d, origin⟩⟩

/-- A catalogue while files are loaded into it. What was registered before a failure stays. -/
abbrev Loading := ExceptT Error (StateM Catalogue)

def registerIn (d : RecipeDefinition) (origin : Option FilePath) : Loading Unit := do
  match (← get).register d origin with
  | .ok c => set c
  | .error e => throw e

/-- Registers the definitions of a document; none of them if one is invalid. -/
def loadDocument (path : FilePath) (document : Json) : Loading Nat := do
  let ds ← liftExcept (RecipeDefinition.ofDocument path document)
  ds.forM fun d => registerIn d (some path)
  return ds.length

def total (counts : List Nat) : Nat := counts.foldl Nat.add 0

def loadFile (t : FileTree) (path : FilePath) : Loading Nat := do
  let text ← liftExcept (t.read path)
  let documents ← liftExcept (RecipeDefinition.documentsOf path text)
  return total (← documents.mapM (loadDocument path))

def loadFolder (t : FileTree) (folder : FilePath) : Loading Nat := do
  if !t.isFolder folder then throw (.config s!"Recipe directory does not exist: {folder.text}")
  let files := (t.walk folder).filter fun path => (FileFormat.ofPath? path).isSome
  return total (← files.mapM (loadFile t))

def ofSettings (t : FileTree) (s : Settings) (base : FilePath) : Except Error Catalogue :=
  let load := s.directories.forM fun folder => discard (loadFolder t (base.join ⟨folder⟩))
  match (ExceptT.run load).run {} with
  | (.ok (), c) => .ok c
  | (.error e, _) => .error e

end Catalogue
end Emend
