import Emend.Markup.Query
import Emend.Text.Step

/-! # Build descriptors

What a POM says about its project: coordinates, properties, dependencies; and how `${…}` references in its
text are resolved.
-/

namespace Emend

open Markup

structure Coordinates where
  groupId : Option String
  artifactId : String
  version : Option String
deriving DecidableEq

namespace Coordinates

/-- From the children of an element, which has to name an artifact. -/
def ofTag? (t : Tag) : Option Coordinates := do
  return { groupId := t.childValue? "groupId", artifactId := ← t.childValue? "artifactId",
           version := t.childValue? "version" }

def selects (c : Coordinates) (groupId artifactId : String) : Bool :=
  c.groupId == some groupId && c.artifactId == artifactId

def display (c : Coordinates) : String :=
  c.groupId.getD "" ++ ":" ++ c.artifactId ++ ":" ++ c.version.getD ""

end Coordinates

structure Dependency where
  coordinates : Coordinates
  scope : Option String
  type : Option String
  isOptional : Bool
deriving DecidableEq

def Dependency.ofTag? (t : Tag) : Option Dependency := do
  return { coordinates := ← Coordinates.ofTag? t, scope := t.childValue? "scope", type := t.childValue? "type",
           isOptional := t.childValue? "optional" == some "true" }

def Dependency.listIn : Option Tag → List Dependency
  | some t => (t.childrenNamed "dependency").filterMap Dependency.ofTag?
  | none => []

/-- `properties` keeps the order of the file. -/
structure Pom where
  coordinates : Coordinates
  parent : Option Coordinates
  packaging : Option String
  properties : List (String × String)
  dependencies : List Dependency
  managedDependencies : List Dependency
deriving DecidableEq

def propertyReference? (value : String) : Option String := do
  let inner ← Text.after? ['$', '{'] (Text.trimChars value.toList)
  let (name, rest) ← Text.breakLast? (· == '}') inner
  if rest.isEmpty && !name.isEmpty && !name.any ("${}".toList.contains ·) then some (String.ofList name) else none

namespace Pom

/-- The summary of a POM rooted at `<project>`. Group and version are taken from the parent if the project
does not give them. -/
def ofDocument? (d : Document) : Option Pom := do
  guard (d.kind.isA .mavenPom && d.root.name == "project")
  let project := d.root
  let parent := (project.child? "parent").bind Coordinates.ofTag?
  let own ← Coordinates.ofTag? project
  return {
    coordinates := {
      groupId := own.groupId <|> parent.bind (·.groupId)
      artifactId := own.artifactId
      version := own.version <|> parent.bind (·.version) }
    parent
    packaging := project.childValue? "packaging"
    properties := match project.child? "properties" with
      | some t => t.children.map fun p => (p.name, p.value?.getD "")
      | none => []
    dependencies := Dependency.listIn (project.child? "dependencies")
    managedDependencies :=
      Dependency.listIn ((project.child? "dependencyManagement").bind (·.child? "dependencies")) }

def property? (p : Pom) (key : String) : Option String := p.properties.lookup key

def lookup? (p : Pom) (key : String) : Option String :=
  if key = "project.groupId" ∨ key = "pom.groupId" then p.coordinates.groupId
  else if key = "project.artifactId" ∨ key = "pom.artifactId" then some p.coordinates.artifactId
  else if key = "project.version" ∨ key = "pom.version" then p.coordinates.version
  else if key = "project.parent.version" then p.parent.bind (·.version)
  else p.property? key

/-- Every reference `${key}` replaced once, from left to right; unknown keys stay as written. -/
def substituteChars (p : Pom) (s : List Char) : List Char :=
  match h₁ : Text.breakOn? ['$', '{'] s with
  | none => s
  | some (before, inside) =>
    match h₂ : Text.breakOn? ['}'] inside with
    | none => s
    | some (key, rest) =>
      have : rest.length < s.length :=
        Nat.lt_trans (Text.length_lt_of_breakOn? h₂ (by simp)) (Text.length_lt_of_breakOn? h₁ (by simp))
      let value := match p.lookup? (String.ofList key) with
        | some v => v.toList
        | none => '$' :: '{' :: key ++ ['}']
      before ++ value ++ substituteChars p rest
termination_by s.length

def substitute (p : Pom) (value : String) : String := String.ofList (p.substituteChars value.toList)

def maxPasses : Nat := 8

/-- References replaced, in the replacements too, until nothing changes or `maxPasses` is reached. -/
def resolve (p : Pom) (value : String) : String := go maxPasses value
where
  go : Nat → String → String
    | 0, value => value
    | n + 1, value =>
      let next := p.substitute value
      if next = value then value else go n next

end Pom
end Emend
