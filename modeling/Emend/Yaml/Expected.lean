import Emend.Yaml.Value

/-! # Values of an expected type

Where a type is expected, a plain scalar is read as that type: `1.0` and `yes` are texts where texts are
expected. What is not expected is passed over.
-/

namespace Emend.Yaml

abbrev Expected := Document → Node → Expanding Json

namespace Expected

def isOpen (s : Scalar) (type : String) : Bool :=
  s.style = .plain || (s.style = .literal && s.tag == some (coreTag type))

def text : Expected := fun d n => .string <$> d.keyText n

def flag : Expected := fun d n => do
  match ← d.resolve n with
  | .scalar s =>
    match isOpen s "bool", bool? s.text with
    | true, some b => return .bool b
    | _, _ => failure
  | _ => failure

def count : Expected := fun d n => do
  match ← d.resolve n with
  | .scalar s =>
    match isOpen s "int", unsigned? s.text.toList with
    | true, some n => if n < Nat.pow 2 64 then return .nat n else failure
    | _, _ => failure
  | _ => failure

def isVoid (s : Scalar) : Bool :=
  match s.tag with
  | some t => t = coreTag "null"
  | none => s.text.isEmpty && s.style = .plain

def list (item : Expected) : Expected := fun d n => do
  match ← d.resolve n with
  | .sequence _ items => .array <$> items.mapM (item d)
  | .scalar s => if isVoid s then return .array [] else failure
  | _ => failure

def optional (value : Expected) : Expected := fun d n => do
  match ← d.resolve n with
  | .scalar s =>
    if s.style ≠ .plain then value d (.scalar s)
    else
      match s.tag with
      | none => if s.text.isEmpty || isNull s.text then return .null else value d (.scalar s)
      | some t =>
        if t = coreTag "null" then if isNull s.text then return .null else failure
        else value d (.scalar s)
  | n => value d n

def items (d : Document) : List Expected → List Node → Expanding (List Json)
  | _, [] => return []
  | [], _ :: ns => return .null :: (← items d [] ns)
  | f :: fs, n :: ns => return (← f d n) :: (← items d fs ns)

def record (fields : List (String × Expected)) : Expected := fun d n => do
  match ← d.resolve n with
  | .sequence _ ns => .array <$> items d (fields.map (·.2)) ns
  | .mapping _ entries => .object <$> entries.filterMapM fun (key, value) => do
    let key ← d.keyText key
    match fields.lookup key with
    | some f => return some (key, ← f d value)
    | none => return none
  | .scalar s => if isVoid s then return .object [] else failure
  | _ => failure

end Expected

/-- The only document of a text, of the given type; a text without documents is an empty one. -/
def read? (form : Expected) (s : String) : Option Json := do
  match ← documents? s with
  | [] => Document.expand ⟨.empty, []⟩ (form ⟨.empty, []⟩ .empty)
  | [d] => d.expand (form d d.root)
  | _ => none

end Emend.Yaml
