import Emend.Json.Basic

/-! # Looking into JSON objects

Fields by key. A field of another type counts as missing.
-/

namespace Emend.Json

def str? (j : Json) (key : String) : Option String :=
  match j.field? key with
  | some (string s) => some s
  | _ => none

def str (j : Json) (key : String) (default : String := "") : String := (j.str? key).getD default

def flag (j : Json) (key : String) (default : Bool := false) : Bool :=
  match j.field? key with
  | some (bool b) => b
  | _ => default

def nat? (j : Json) (key : String) : Option Nat :=
  match j.field? key with
  | some (int (.ofNat n)) => some n
  | _ => none

def number (j : Json) (key : String) (default : Nat := 0) : Nat := (j.nat? key).getD default

def get (j : Json) (key : String) : Json := (j.field? key).getD null

def list? (j : Json) (key : String) : Option (List Json) :=
  match j.field? key with
  | some (array items) => some items
  | _ => none

def list (j : Json) (key : String) : List Json := (j.list? key).getD []

def isObject : Json → Bool
  | object _ => true
  | _ => false

def texts (items : List Json) : List String :=
  items.filterMap fun
    | string s => some s
    | _ => none

def naturals (items : List Json) : List Nat :=
  items.filterMap fun
    | int (.ofNat n) => some n
    | _ => none

def strings (j : Json) (key : String) : List String := texts (j.list key)

def ofStrings (ss : List String) : Json := array (ss.map string)

def orNull {α : Type} (encode : α → Json) : Option α → Json
  | some a => encode a
  | none => null

def append (j : Json) (more : List (String × Json)) : Json :=
  match j with
  | object fields => object (fields ++ more)
  | j => j

end Emend.Json
