import Emend.Json.Access
import Emend.Json.Shape
import Emend.Pipeline.Run

/-! # Settings

Which recipes to run and how. Every setting may be left open, for other settings to fill in.
-/

namespace Emend

structure PipelineSettings where
  parallel : Option Bool := none
  failFast : Option Bool := none
  threads : Option Nat := none
  checkIdempotence : Option Bool := none
deriving DecidableEq

structure RecipeSettings where
  active : Option (List String) := none
  directories : Option (List String) := none
deriving DecidableEq

/-- `bases` are the files that these settings build on. -/
structure Settings where
  schema : Option String := none
  bases : Option (List String) := none
  pipeline : Option PipelineSettings := none
  recipes : Option RecipeSettings := none
deriving DecidableEq

def PipelineSettings.merge (a b : PipelineSettings) : PipelineSettings where
  parallel := a.parallel <|> b.parallel
  failFast := a.failFast <|> b.failFast
  threads := a.threads <|> b.threads
  checkIdempotence := a.checkIdempotence <|> b.checkIdempotence

def addMissing (there : List String) : (more : List String) → List String
  | [] => there
  | s :: more => addMissing (if there.contains s then there else there ++ [s]) more

def RecipeSettings.merge (a b : RecipeSettings) : RecipeSettings where
  active := a.active <|> b.active
  directories := match b.directories with
    | some more => some (addMissing (a.directories.getD []) more)
    | none => a.directories

/-- A section that is there in one of them only is taken over as it is. -/
def mergeSection {α : Type} (merge : α → α → α) : Option α → Option α → Option α
  | some a, some b => some (merge a b)
  | a, b => a <|> b

def Settings.merge (a b : Settings) : Settings := { a with
  pipeline := mergeSection PipelineSettings.merge a.pipeline b.pipeline
  recipes := mergeSection RecipeSettings.merge a.recipes b.recipes }

def Settings.mergeAll : List Settings → Settings
  | [] => {}
  | s :: more => more.foldl Settings.merge s

def PipelineSettings.config (s : PipelineSettings) : PipelineConfig where
  parallel := s.parallel.getD true
  failFast := s.failFast.getD false
  threads := s.threads
  checkIdempotence := s.checkIdempotence.getD false

namespace Settings

def config (s : Settings) : PipelineConfig := (s.pipeline.getD {}).config

def active (s : Settings) : List String := (s.recipes.bind (·.active)).getD []

def directories (s : Settings) : List String := (s.recipes.bind (·.directories)).getD []

end Settings

namespace Settings

open Json (Record Decoder decodeString decodeBool decodeNat decodeList)

def decodePipeline : Decoder PipelineSettings :=
  let fields := ((Record.optional "parallel" decodeBool).both (Record.optional "failFast" decodeBool)).both
    ((Record.optional "threads" (decodeNat 64 "usize")).both (Record.optional "checkIdempotence" decodeBool))
  (fields.map fun ((parallel, failFast), threads, checkIdempotence) =>
    PipelineSettings.mk parallel failFast threads checkIdempotence).decoder "struct PipelineConfiguration" false

def decodeRecipes : Decoder RecipeSettings :=
  let fields := (Record.optional "active" (decodeList decodeString)).both
    (Record.optional "directories" (decodeList decodeString))
  (fields.map fun (active, directories) => RecipeSettings.mk active directories).decoder
    "struct RecipesConfiguration" false

/-- Fields that are not known are passed over. -/
def decode : Decoder Settings :=
  let fields := ((Record.optional "$schema" decodeString).both
    (Record.optional "extends" (decodeList decodeString))).both
    ((Record.optional "pipeline" decodePipeline).both (Record.optional "recipes" decodeRecipes))
  (fields.map fun ((schema, bases), pipeline, recipes) => Settings.mk schema bases pipeline recipes).decoder
    "struct RemoldConfig" false

def encodePipeline (s : PipelineSettings) : Json := .object [
  ("parallel", .orNull .bool s.parallel), ("failFast", .orNull .bool s.failFast),
  ("threads", .orNull .nat s.threads), ("checkIdempotence", .orNull .bool s.checkIdempotence)]

def encodeRecipes (s : RecipeSettings) : Json := .object [
  ("active", .orNull .ofStrings s.active), ("directories", .orNull .ofStrings s.directories)]

/-- Sections that are not there are left out. -/
def encode (s : Settings) : Json :=
  .object ([
    ("$schema", s.schema.map .string), ("extends", s.bases.map .ofStrings),
    ("pipeline", s.pipeline.map encodePipeline), ("recipes", s.recipes.map encodeRecipes)].filterMap
      fun (key, j) => j.map (key, ·))

end Settings
end Emend
