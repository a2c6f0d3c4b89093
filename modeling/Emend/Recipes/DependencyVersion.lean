import Emend.Glob
import Emend.Recipes.PropertyValue

/-! # Upgrading dependencies

A dependency's version is changed where it is written: in the dependency, or in the property that it refers to.
-/

namespace Emend.Recipes

open Markup

structure DependencyVersion where
  groupId : Glob
  artifactId : Glob
  version : String

namespace DependencyVersion

def name : String := "remold.maven.UpgradeDependencyVersion"

def pattern (s : String) : Except Error Glob :=
  match Glob.parse s with
  | .ok g => .ok g
  | .error f => .error (.config s!"Invalid pattern '{s}': {f.message}")

def ofOptions (options : Json) : Except Error DependencyVersion := do
  let record := (requiredText "groupId").both ((requiredText "artifactId").both (requiredText "newVersion"))
  let (groupId, artifactId, version) ←
    decodeOptions name (record.decoder "struct UpgradeDependencyVersionOptions" true) options
  return { groupId := ← pattern groupId, artifactId := ← pattern artifactId, version }

def dependencyPath : TagPath :=
  ⟨"/project/dependencies/dependency", true, ["project", "dependencies", "dependency"]⟩

def managedPath : TagPath :=
  ⟨"/project/dependencyManagement/dependencies/dependency", true,
    ["project", "dependencyManagement", "dependencies", "dependency"]⟩

/-- Whether coordinates match once the references in them are resolved; a missing group is empty. -/
def selects (r : DependencyVersion) (pom : Option Pom) (c : Coordinates) : Bool :=
  let resolve (s : String) : String := match pom with
    | some p => p.resolve s
    | none => s
  r.groupId.selects ((c.groupId.map resolve).getD "") && r.artifactId.selects (resolve c.artifactId)

/-- What a visit knows of its document: the summary, and the properties that selected dependencies take their
version from. -/
structure Known where
  pom : Option Pom := none
  properties : List String := []

def versionProperty? (r : DependencyVersion) (p : Pom) (d : Dependency) : Option String := do
  let property ← propertyReference? (← d.coordinates.version)
  if r.selects (some p) d.coordinates then some property else none

def known (r : DependencyVersion) (pom : Option Pom) : Known where
  pom
  properties := match pom with
    | some p => (p.dependencies ++ p.managedDependencies).filterMap (r.versionProperty? p)
    | none => []

def isDirect (r : DependencyVersion) (pom : Option Pom) (t : Tag) : Bool :=
  match Coordinates.ofTag? t with
  | none => false
  | some c => match c.version with
    | none => false
    | some version => (propertyReference? version).isNone && r.selects pom c

def upgrade (r : DependencyVersion) (pom : Option Pom) (t : Tag) : Fresh (Visit Tag) := do
  if r.isDirect pom t then
    match ← t.withChildValue? "version" r.version with
    | some new => return .of t new
    | none => return .unchanged
  else return .unchanged

def visitor (r : DependencyVersion) : Markup.Visitor (StateT Known Visiting) where
  target := .mavenPom
  document _ d walk := do
    set (r.known (← StateT.lift (Visiting.pom d)))
    walk
  tag place t walk := do
    let known ← get
    if place.selectedBy dependencyPath t || place.selectedBy managedPath t then
      StateT.lift (Visiting.fresh (r.upgrade known.pom t))
    else if place.selectedBy propertyPath t && known.properties.contains t.name then
      StateT.lift (Visiting.fresh (setValue t r.version))
    else walk

def recipe (r : DependencyVersion) : Recipe where
  name := name
  displayName := "Upgrade Maven dependency version"
  description := "Set the version of matching dependencies, following property references"
  visitor := some (.ofMarkup r.visitor {})
  next := []

end DependencyVersion
end Emend.Recipes
