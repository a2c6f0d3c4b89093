import Emend.Parsing
import Emend.Session

/-! # Reading many files

Files that cannot be read are reported and left out; the rest keep their order.
-/

namespace Emend

structure Input where
  path : FilePath
  text : String
deriving DecidableEq

def Parser.parseAll (parsers : List Parser) : List Input → StateM Session (List Source)
  | [] => return []
  | i :: is => do
    let s ← get
    let (result, supply) := (Parser.parseWith parsers i.path i.text).run.run s.supply
    set { s with supply }
    match result with
    | .ok source => return source :: (← parseAll parsers is)
    | .error e =>
      modify fun s => { s with context := s.context.report (Failure.of i.path none e) }
      parseAll parsers is

end Emend
