import Emend.Json.Basic
import Emend.Text.Search

/-! # Changing JSON values by pointer

A pointer names a value inside another by the keys and indexes on the way to it.
-/

namespace Emend.Json

/-- The keys of a pointer: each behind a slash, with `~1` for a slash and `~0` for `~`. -/
def pointerKeys (pointer : String) : List String :=
  ((Text.splitWhere (· == '/') pointer.toList).drop 1).map fun key =>
    Text.replace "~0" "~" (Text.replace "~1" "/" (String.ofList key))

/-- Sets a field in place or as the last one, or an item, or one more at the end. Without a value the field or
item is removed. -/
def setChild (key : String) (value : Option Json) : Json → Json
  | object fields =>
    match value with
    | none => object (fields.filter (·.1 != key))
    | some v =>
      if fields.any (·.1 == key) then object (fields.map fun (k, w) => if k == key then (k, v) else (k, w))
      else object (fields ++ [(key, v)])
  | array items =>
    match key.toNat?, value with
    | none, _ => array items
    | some i, none => array (items.eraseIdx i)
    | some i, some v => array (if i < items.length then items.set i v else items ++ [v])
  | j => j

/-- Sets or removes what the keys name; what they do not reach stays as it is. -/
def setAt : (keys : List String) → (value : Option Json) → Json → Json
  | [], value, _ => value.getD null
  | [key], value, j => setChild key value j
  | key :: rest, value, j =>
    match j with
    | object fields => object (fields.map fun (k, w) => if k == key then (k, setAt rest value w) else (k, w))
    | array items => match key.toNat? with
      | none => array items
      | some i => array (items.mapIdx fun n w => if n == i then setAt rest value w else w)
    | j => j

end Emend.Json
