import Emend.Toml.Table
import Emend.Toml.Text
import Emend.Toml.Time

/-! # Reading TOML

Lines are keys with values, or headers. The result is a JSON value whose keys are sorted. Numbers that are
not finite are null, and a date or time is an object around its text.
-/

namespace Emend.Toml

def isAtomChar (c : Char) : Bool := c.isAlphanum || c == '+' || c == '-' || c == '_' || c == '.' || c == ':'

def digits? (base : Nat) (s : List Char) : Option (List Char) := go false s
where
  /-- `open_` says that a digit came before. -/
  go (open_ : Bool) : List Char → Option (List Char)
    | [] => if open_ then some [] else none
    | c :: s =>
      if c == '_' then if open_ then go false s else none
      else if (Json.hexValue? c).any (· < base) then (go true s).map (c :: ·)
      else none

def based? (base : Nat) (s : List Char) : Option Nat :=
  (digits? base s).map (·.foldl (fun n c => n * base + (Json.hexValue? c).getD 0) 0)

def whole? (s : List Char) : Option (List Char) := do
  let ds ← digits? 10 s
  if 1 < ds.length && ds.head? == some '0' then none
  return ds

/-- An integer or a decimal behind its sign. Integers that need more than 64 bits are refused. -/
def number? (negative : Bool) (s : List Char) : Option Json :=
  match whole? s with
  | some ds => Json.ofInt? (if negative then -(Json.ofDigits ds : Int) else Json.ofDigits ds)
  | none => do
    let isMark (c : Char) := c == '.' || c == 'e' || c == 'E'
    let ds ← whole? (s.takeWhile (!isMark ·))
    let (frac, rest) ← match s.dropWhile (!isMark ·) with
      | '.' :: r => do
        let isExponent (c : Char) := c == 'e' || c == 'E'
        let frac ← digits? 10 (r.takeWhile (!isExponent ·))
        pure (frac, r.dropWhile (!isExponent ·))
      | r => pure ([], r)
    let exponent : Int ← match rest with
      | [] => pure 0
      | _ :: '-' :: r => (digits? 10 r).map fun ds => -(Json.ofDigits ds : Int)
      | _ :: '+' :: r | _ :: r => (digits? 10 r).map fun ds => (Json.ofDigits ds : Int)
    let d : Decimal := ⟨negative, Json.ofDigits (ds ++ frac), exponent - frac.length⟩
    if d.isFinite then return .real d else none

def signed? (negative : Bool) (s : List Char) : Option Json :=
  if ["inf", "nan"].contains (String.ofList s) then some .null else number? negative s

def momentKey : String := "$__toml_private_datetime"

def atom? (s : List Char) : Option (Json × List Char) :=
  match moment? s with
  | some (text, rest) =>
    if rest.head?.any isAtomChar then none else some (.object [(momentKey, .string text)], rest)
  | none =>
    let word := s.takeWhile isAtomChar
    let value := match word with
      | '0' :: 'x' :: ds => (based? 16 ds).bind (Json.ofInt? ·)
      | '0' :: 'o' :: ds => (based? 8 ds).bind (Json.ofInt? ·)
      | '0' :: 'b' :: ds => (based? 2 ds).bind (Json.ofInt? ·)
      | '+' :: ds => signed? false ds
      | '-' :: ds => signed? true ds
      | ds =>
        if ds = "true".toList then some (.bool true)
        else if ds = "false".toList then some (.bool false)
        else signed? false ds
    value.map (·, s.dropWhile isAtomChar)

-- Every call gets a smaller bound; twice the length of the text is enough.
mutual

def value? : Nat → List Char → Option (Json × List Char)
  | 0, _ => none
  | bound + 1, s =>
    match s with
    | '[' :: s => do
      let (items, rest) ← items? bound s
      return (.array items, rest)
    | '\x7b' :: s => do
      match skipSpace s with
      | '\x7d' :: rest => return (.object [], rest)
      | s => do
        let (fields, rest) ← inlineFields? bound [] s
        return ((Item.table .header fields).toJson, rest)
    | '"' :: _ | '\x27' :: _ => (string? s).map fun (text, rest) => (.string (String.ofList text), rest)
    | s => atom? s

/-- The items of an array and its closing bracket. A comma may follow the last one. -/
def items? : Nat → List Char → Option (List Json × List Char)
  | 0, _ => none
  | bound + 1, s => do
    match ← skipLines? s with
    | ']' :: rest => return ([], rest)
    | s => do
      let (item, s) ← value? bound s
      match ← skipLines? s with
      | ',' :: s => do
        let (more, rest) ← items? bound s
        return (item :: more, rest)
      | ']' :: rest => return ([item], rest)
      | _ => none

def inlineFields? : Nat → Fields → List Char → Option (Fields × List Char)
  | 0, _, _ => none
  | bound + 1, fields, s => do
    let (path, key, s) ← key? s
    match s with
    | '=' :: s => do
      let (j, s) ← value? bound (skipSpace s)
      let fields ← fields.set path key j
      match skipSpace s with
      | ',' :: s => inlineFields? bound fields s
      | '\x7d' :: rest => return (fields, rest)
      | _ => none
    | _ => none

end

structure Reading where
  fields : Fields := []
  header : List String := []

def Reading.openHeader (r : Reading) (row : Bool) (s : List Char) : Option (Reading × List Char) := do
  let (path, key, s) ← key? s
  let fields ← if row then r.fields.openRow path key else r.fields.openTable path key
  match row, s with
  | false, ']' :: rest | true, ']' :: ']' :: rest => return ({ fields, header := path ++ [key] }, rest)
  | _, _ => none

def Reading.line (r : Reading) (s : List Char) : Option (Reading × List Char) := do
  match s with
  | [] | '#' :: _ | '\n' :: _ | '\r' :: _ => return (r, s)
  | '[' :: '[' :: s => r.openHeader true s
  | '[' :: s => r.openHeader false s
  | s => do
    let (path, key, s) ← key? s
    match s with
    | '=' :: s => do
      let s := skipSpace s
      let (j, rest) ← value? (2 * s.length + 2) s
      return ({ r with fields := ← r.fields.setIn r.header path key j }, rest)
    | _ => none

def Reading.lines (r : Reading) : Nat → List Char → Option Reading
  | 0, _ => none
  | bound + 1, s => do
    let (r, s) ← r.line (skipSpace s)
    match ← skipComment? (skipSpace s) with
    | [] => return r
    | s => do r.lines bound (← newline? s)

def parse? (s : String) : Option Json := do
  let s := match s.toList with
    | '\ufeff' :: s => s
    | s => s
  let r ← Reading.lines {} (s.length + 1) s
  return (Item.table .header r.fields).toJson

end Emend.Toml
