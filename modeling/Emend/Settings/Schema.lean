import Emend.Json.Access

/-! # The schema of settings

A JSON schema that settings files can be checked against.
-/

namespace Emend.Settings

def property (description type : String) (more : List (String × Json)) : Json :=
  .object ([("description", .string description), ("type", .ofStrings [type, "null"])] ++ more)

def textProperty (description : String) : Json := property description "string" []

def flagProperty (description : String) : Json := property description "boolean" []

def countProperty (description : String) : Json :=
  property description "integer" [("format", .string "uint"), ("minimum", .nat 0)]

def listProperty (description : String) : Json :=
  property description "array" [("items", .object [("type", .string "string")])]

def sectionProperty (description definition : String) : Json := .object [
  ("description", .string description),
  ("anyOf", .array [.object [("$ref", .string s!"#/$defs/{definition}")], .object [("type", .string "null")]])]

def objectSchema (description : String) (properties : List (String × Json)) : List (String × Json) :=
  [("description", .string description), ("type", .string "object"), ("properties", .object properties)]

def dialect : String := "/".intercalate ["https:", "", "json-schema.org", "draft", "2020-12", "schema"]

def schemaJson : Json := .object ([("$schema", .string dialect), ("title", .string "RemoldConfig")] ++
  objectSchema "Top-level configuration" [
    ("$schema", textProperty "JSON schema reference, ignored when loading"),
    ("extends", listProperty "Paths of configuration files to inherit from"),
    ("pipeline", sectionProperty "Execution settings" "PipelineConfiguration"),
    ("recipes", sectionProperty "Recipe selection and discovery" "RecipesConfiguration")] ++
  [("$defs", .object [
    ("PipelineConfiguration", .object (objectSchema "Pipeline configuration" [
      ("parallel", flagProperty "Visit the files of one stage in parallel"),
      ("failFast", flagProperty "Abort the run on the first per-file failure"),
      ("threads", countProperty "Size of a dedicated worker pool"),
      ("checkIdempotence",
        flagProperty "Re-run each recipe on the files it changed and report further changes")])),
    ("RecipesConfiguration", .object (objectSchema "Recipes configuration" [
      ("active", listProperty "Names of the recipes to run, in order"),
      ("directories", listProperty "Directories containing declarative recipe files")]))])])

end Emend.Settings
