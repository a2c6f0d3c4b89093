import Emend.FileFormat
import Emend.FileTree
import Emend.Settings.Basic
import Emend.Toml.Reader
import Emend.Yaml.Expected

/-! # Settings files

One file of settings, in the format that its extension names. The files it builds on are left aside.
-/

namespace Emend.Settings

open Yaml.Expected in
def expected : Yaml.Expected :=
  record [
    ("$schema", optional text), ("extends", optional (list text)),
    ("pipeline", optional (record [
      ("parallel", optional flag), ("failFast", optional flag), ("threads", optional count),
      ("checkIdempotence", optional flag)])),
    ("recipes", optional (record [("active", optional (list text)), ("directories", optional (list text))]))]

def ofText (format : FileFormat) (text : String) : Except String Settings :=
  let read? : Option (Json.Delivery × Json) := match format with
    | .yaml => (Yaml.read? expected text).map (.built, ·)
    | .json => (Json.parse? text).map (.streamed, ·)
    | .toml => (Toml.parse? text).map (.built, ·)
  match read? with
  | none => .error format.malformed
  | some (how, j) => (decode how j).mapError (·.message)

def ofFile (path : FilePath) (text : String) : Except Error Settings :=
  let result : Except String Settings := match FileFormat.ofPath? path with
    | none => .error FileFormat.unsupported
    | some format => ofText format text
  result.mapError fun reason => .config s!"Failed to load config from '{path.text}': {reason}"

def read (t : FileTree) (path : FilePath) : Except Error Settings := do ofFile path (← t.read path)

end Emend.Settings
