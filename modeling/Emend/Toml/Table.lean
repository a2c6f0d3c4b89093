import Emend.Json.Basic

/-! # Tables under construction

A table remembers how each part of it came about, because only some parts may be extended later: what a
header names may not be named again, and a table made by dotted keys is closed to headers.
-/

namespace Emend.Toml

/-- How a table came about: named by a header, on the way to one, or by a dotted key. -/
inductive Origin where
  | header
  | passage
  | dotted
deriving DecidableEq

inductive Item where
  | value (j : Json)
  | table (origin : Origin) (fields : List (String × Item))
  | tables (rows : List (List (String × Item)))

abbrev Fields := List (String × Item)

namespace Item

def put (key : String) (item : Item) : Fields → Fields
  | [] => [(key, item)]
  | (k, old) :: fields =>
    if key = k then (k, item) :: fields
    else if key < k then (key, item) :: (k, old) :: fields
    else (k, old) :: put key item fields

mutual

def toJson : Item → Json
  | value j => j
  | table _ fields => .object (toJsonFields fields)
  | tables rows => .array (toJsonRows rows)

def toJsonFields : Fields → List (String × Json)
  | [] => []
  | (k, i) :: fs => (k, i.toJson) :: toJsonFields fs

def toJsonRows : List Fields → List Json
  | [] => []
  | row :: rows => .object (toJsonFields row) :: toJsonRows rows

end

end Item

namespace Fields

/-- Changes the table below the keys, making those on the way. Dotted keys pass only through tables that no
header names; of an array of tables the last one is meant. -/
def below (dotted : Bool) (change : Origin → Fields → Option Fields) : List String → Origin → Fields → Option Fields
  | [], origin, fields => change origin fields
  | key :: path, _, fields =>
    match fields.lookup key with
    | none => do
      let origin := if dotted then .dotted else .passage
      return Item.put key (.table origin (← below dotted change path origin [])) fields
    | some (.value _) => none
    | some (.table origin inner) =>
      if dotted && origin = .header then none
      else do return Item.put key (.table origin (← below dotted change path origin inner)) fields
    | some (.tables rows) =>
      match rows.getLast? with
      | none => none
      | some row => do return Item.put key (.tables (rows.dropLast ++ [← below dotted change path .header row])) fields

/-- A new value. A dotted key ends in a table that such keys made. -/
def set (path : List String) (key : String) (j : Json) (fields : Fields) : Option Fields :=
  below true (fun origin table =>
    if decide (origin = .dotted) == path.isEmpty || (table.lookup key).isSome then none
    else some (Item.put key (.value j) table)) path .header fields

def openTable (path : List String) (key : String) (fields : Fields) : Option Fields :=
  below false (fun _ table =>
    match table.lookup key with
    | none => some (Item.put key (.table .header []) table)
    | some (.table .passage inner) => some (Item.put key (.table .header inner) table)
    | some _ => none) path .header fields

def openRow (path : List String) (key : String) (fields : Fields) : Option Fields :=
  below false (fun _ table =>
    match table.lookup key with
    | none => some (Item.put key (.tables [[]]) table)
    | some (.tables rows) => some (Item.put key (.tables (rows ++ [[]])) table)
    | some _ => none) path .header fields

def setIn (header : List String) (path : List String) (key : String) (j : Json) (fields : Fields) : Option Fields :=
  below false (fun _ table => set path key j table) header .header fields

end Fields
end Emend.Toml
