import Emend.FilePath

/-! # Formats of settings and recipe files -/

namespace Emend

inductive FileFormat where
  | yaml
  | json
  | toml
deriving DecidableEq

namespace FileFormat

def ofPath? (path : FilePath) : Option FileFormat :=
  match path.extension? with
  | some "yaml" | some "yml" => some .yaml
  | some "json" => some .json
  | some "toml" => some .toml
  | _ => none

def unsupported : String := "unsupported file extension (expected .yaml, .yml, .json or .toml)"

def malformed : FileFormat → String
  | yaml => "malformed YAML"
  | json => "malformed JSON"
  | toml => "malformed TOML"

end FileFormat
end Emend
