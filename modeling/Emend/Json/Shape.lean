import Emend.Json.Basic
import Emend.SortedMap
import Emend.Text.Literal

/-! # Shapes of JSON values

Decoders turn values into domain types or say, with the first reason in reading order, why they cannot.
A `Record` collects the fields of an object, or the items of an array in the same order.
-/

namespace Emend.Json

def describe : Json → String
  | null => "null"
  | bool b => if b then "boolean `true`" else "boolean `false`"
  | int n => s!"integer `{n}`"
  | real d => s!"floating point `{d.text}`"
  | string s => s!"string {Text.literal s}"
  | array _ => "sequence"
  | object _ => "map"

inductive ShapeError where
  | invalidType (found : String) (expected : String)
  | invalidValue (found : String) (expected : String)
  | invalidLength (length : Nat) (expected : String)
  | missingField (field : String)
  | duplicateField (field : String)
  | unknownField (field : String) (fields : List String)
  | unknownVariant (variant : String) (variants : List String)
  | noVariant (type : String)
  | expectedValue
  | trailing
  | outOfRange
deriving DecidableEq

private def ticked (s : String) : String := s!"`{s}`"

def oneOf : List String → String
  | [] => ""
  | [a] => ticked a
  | [a, b] => s!"{ticked a} or {ticked b}"
  | names => "one of " ++ ", ".intercalate (names.map ticked)

def ShapeError.message : ShapeError → String
  | invalidType found expected => s!"invalid type: {found}, expected {expected}"
  | invalidValue found expected => s!"invalid value: {found}, expected {expected}"
  | invalidLength length expected => s!"invalid length {length}, expected {expected}"
  | missingField field => s!"missing field {ticked field}"
  | duplicateField field => s!"duplicate field {ticked field}"
  | unknownField field [] => s!"unknown field {ticked field}, there are no fields"
  | unknownField field fields => s!"unknown field {ticked field}, expected {oneOf fields}"
  | unknownVariant variant variants => s!"unknown variant {ticked variant}, expected {oneOf variants}"
  | noVariant type => s!"data did not match any variant of untagged enum {type}"
  | expectedValue => "expected value"
  | trailing => "trailing characters"
  | outOfRange => "number out of range"

/-- Where a value comes from: straight from text, from text put aside until the tag beside it was read, or
from a value built before. Some refusals are worded differently. -/
inductive Delivery where
  | streamed
  | buffered
  | built
deriving DecidableEq

abbrev Decoder (α : Type) := Delivery → Json → Except ShapeError α

def refuse {α : Type} (j : Json) (expected : String) : Except ShapeError α :=
  .error (.invalidType j.describe expected)

def Decoder.map {α β : Type} (f : α → β) (d : Decoder α) : Decoder β := fun how j => (d how j).map f

/-- Puts values aside, which have to be in range even where they are passed over later. -/
def putAside (js : List Json) : Except ShapeError Unit := if inRangeAll js then .ok () else .error .outOfRange

def decodeText (expected : String) : Decoder String
  | _, .string s => .ok s
  | _, j => refuse j expected

def decodeString : Decoder String := decodeText "a string"

def decodeBool : Decoder Bool
  | _, .bool b => .ok b
  | _, j => refuse j "a boolean"

/-- A number from zero to below `2 ^ bits`, of the type named in messages. -/
def decodeNat (bits : Nat) (name : String) : Decoder Nat
  | _, .int n =>
    if 0 ≤ n ∧ n.toNat < Nat.pow 2 bits then .ok n.toNat else .error (.invalidValue (describe (.int n)) name)
  | _, j => refuse j name

def decodeOption {α : Type} (d : Decoder α) : Decoder (Option α)
  | _, .null => .ok none
  | how, j => (d how j).map some

def decodeList {α : Type} (d : Decoder α) : Decoder (List α)
  | how, .array items => items.mapM (d how)
  | _, j => refuse j "a sequence"

/-- A map; of several values under one key the last stays. -/
def decodeMap {α : Type} (d : Decoder α) : Decoder (SortedMap α)
  | how, .object fields => fields.foldlM (fun m (key, j) => return m.insert key (← d how j)) .empty
  | _, j => refuse j "a map"

def variant? {α : Type} (variants : List (String × α)) (name : String) : Except ShapeError α :=
  match variants.lookup name with
  | some a => .ok a
  | none => .error (.unknownVariant name (variants.map (·.1)))

/-- A choice among names. The name may also be the only key of an object, over null. -/
def decodeChoice {α : Type} (variants : List (String × α)) : Decoder α
  | _, .string s => variant? variants s
  | .streamed, .object [] => .error .expectedValue
  | .streamed, .object ((name, j) :: rest) => do
    let a ← variant? variants name
    match j with
    | .null => if rest.isEmpty then return a else throw .expectedValue
    | j => refuse j "unit"
  | .streamed, _ => .error .expectedValue
  | how, .object [(name, j)] => do
    let a ← variant? variants name
    match j with
    | .null => return a
    | .object [] => if how = .buffered then return a else refuse j "unit"
    | j => refuse j "unit"
  | _, .object _ => .error (.invalidValue "map" "map with a single key")
  | _, j => refuse j "string or map"

/-- Fields to be collected. `put` takes the value of a field it knows; `items` reads the same fields from
the items of an array, given how many came before and how to report that one is missing. -/
structure Record (α : Type) where
  State : Type
  start : State
  names : List String
  put : Delivery → String → Json → State → Option (Except ShapeError State)
  finish : State → Except ShapeError α
  items : Delivery → (Nat → ShapeError) → Nat → List Json → Except ShapeError (α × List Json)

namespace Record

/-- What to do about a field that is missing, from an object and from an array. -/
structure Absence (α : Type) where
  inObject : String → Except ShapeError α
  inArray : ShapeError → Except ShapeError α

def fieldWith {α : Type} (absence : Absence α) (name : String) (d : Decoder α) : Record α where
  State := Option α
  start := none
  names := [name]
  put how key j state :=
    if key = name then
      some (if state.isSome then .error (.duplicateField name) else (d how j).map some)
    else none
  finish state := match state with
    | some a => .ok a
    | none => absence.inObject name
  items how missing count js := match js with
    | [] => (absence.inArray (missing count)).map (·, [])
    | j :: js => (d how j).map (·, js)

def field {α : Type} (name : String) (d : Decoder α) : Record α :=
  fieldWith ⟨fun name => .error (.missingField name), .error⟩ name d

def optional {α : Type} (name : String) (d : Decoder α) : Record (Option α) :=
  fieldWith ⟨fun _ => .ok none, .error⟩ name (decodeOption d)

def defaulted {α : Type} (name : String) (default : α) (d : Decoder α) : Record α :=
  fieldWith ⟨fun _ => .ok default, fun _ => .ok default⟩ name d

def map {α β : Type} (f : α → β) (r : Record α) : Record β where
  State := r.State
  start := r.start
  names := r.names
  put := r.put
  finish state := (r.finish state).map f
  items how missing count js := (r.items how missing count js).map fun (a, rest) => (f a, rest)

def both {α β : Type} (r : Record α) (s : Record β) : Record (α × β) where
  State := r.State × s.State
  start := (r.start, s.start)
  names := r.names ++ s.names
  put how key j state :=
    match r.put how key j state.1 with
    | some x => some (x.map (·, state.2))
    | none => (s.put how key j state.2).map (·.map (state.1, ·))
  finish state := do return (← r.finish state.1, ← s.finish state.2)
  items how missing count js := do
    let (a, js) ← r.items how missing count js
    let (b, js) ← s.items how missing (count + r.names.length) js
    return ((a, b), js)

/-- The record from the fields of an object; unknown ones are passed over, or refused if `strict`. -/
def ofFields {α : Type} (r : Record α) (strict : Bool) (how : Delivery) (fields : List (String × Json)) :
    Except ShapeError α := do
  let state ← fields.foldlM (fun state (key, j) =>
    match r.put how key j state with
    | some next => next
    | none => if strict then .error (.unknownField key r.names) else .ok state) r.start
  r.finish state

private def elements (n : Nat) : String := if n = 1 then "1 element" else s!"{n} elements"

/-- The record from the items of an array, of which there are to be no more than fields. -/
def ofItems {α : Type} (r : Record α) (expected : String) (how : Delivery) (js : List Json) :
    Except ShapeError α := do
  let n := r.names.length
  let (a, rest) ← r.items how (.invalidLength · s!"{expected} with {elements n}") 0 js
  if rest.isEmpty then return a
  else match how with
    | .streamed => throw .trailing
    | .buffered => throw (.invalidLength js.length s!"{elements n} in sequence")
    | .built => throw (.invalidLength js.length "fewer elements in array")

/-- An object or an array with the fields of the record; `expected` names the type in messages. -/
def decoder {α : Type} (expected : String) (r : Record α) (strict : Bool) : Decoder α
  | how, .object fields => r.ofFields strict how fields
  | how, .array js => r.ofItems expected how js
  | _, j => refuse j expected

end Record

/-- A choice between types: an object with the variant's name under `tag` and its value under `content`,
or an array of both. A value that comes before its tag is put aside. -/
def decodeTagged {α : Type} (type tag content : String) (variants : List (String × Decoder α)) : Decoder α :=
  let expected := s!"adjacently tagged enum {type}"
  let choose := decodeChoice variants
  fun how j =>
    match j with
    | .object fields => do
      let relevant := fields.filter fun (key, _) => key == tag || key == content
      match relevant with
      | [] => throw (.missingField tag)
      | (key, j) :: more =>
        if key = tag then
          let d ← choose how j
          match more with
          | [] => throw (.missingField content)
          | (key, j) :: more =>
            if key = tag then throw (.duplicateField tag)
            let a ← d how j
            match more with
            | [] => return a
            | (key, _) :: _ => throw (.duplicateField key)
        else
          match more with
          | [] => throw (.missingField tag)
          | (key, t) :: more =>
            if key = content then throw (.duplicateField content)
            putAside [j]
            let d ← choose how t
            let a ← d .buffered j
            match more with
            | [] => return a
            | (key, _) :: _ => throw (.duplicateField key)
    | .array js =>
      match js with
      | [] => .error (.invalidLength 0 expected)
      | t :: js => do
        let d ← choose how t
        match js with
        | [] => throw (.invalidLength 1 expected)
        | j :: rest =>
          let a ← d how j
          if rest.isEmpty then return a
          else match how with
            | .streamed => throw .trailing
            | .buffered => throw (.invalidLength (rest.length + 2) "2 elements in sequence")
            | .built => throw (.invalidLength (rest.length + 2) "fewer elements in array")
    | j => refuse j expected

/-- The name of a variant; where values are put aside, its index serves too. -/
def decodeVariantName {α : Type} (variants : List (String × α)) : Decoder α
  | _, .string s => variant? variants s
  | how, .int n =>
    if how = .buffered ∧ 0 ≤ n then
      match variants[n.toNat]? with
      | some (_, a) => .ok a
      | none => .error (.invalidValue (describe (.int n)) s!"variant index 0 <= i < {variants.length}")
    else refuse (.int n) "variant identifier"
  | _, j => refuse j "variant identifier"

/-- A choice between records: an object with the variant's name under `tag` among the fields, or an array
that begins with the name. -/
def decodeInlineTagged {α : Type} (type tag : String) (variants : List (String × Decoder α)) : Decoder α
  | how, .object fields => do
    let (choice, others) ← fields.foldlM (fun (choice, others) (key, j) => do
      if key = tag then
        if Option.isSome choice then throw (.duplicateField tag)
        return (some (← decodeVariantName variants how j), others)
      else return (choice, (key, j) :: others)) (none, [])
    match choice with
    | none => throw (.missingField tag)
    | some d => do
      putAside (others.map (·.2))
      d .buffered (.object others.reverse)
  | _, .array [] => .error (.missingField tag)
  | how, .array (t :: js) => do
    let d ← decodeVariantName variants how t
    putAside js
    d .buffered (.array js)
  | _, j => refuse j s!"internally tagged enum {type}"

end Emend.Json
