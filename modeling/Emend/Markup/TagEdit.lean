import Emend.Markup.Edit

/-! # Edits as values

What can be done to one element, to be carried out later.
-/

namespace Emend.Markup

inductive TagEdit where
  | setValue (value : String)
  | appendValue (suffix : String)
  | rename (name : String)
  | setLeading (leading : String)
  | setAttribute (key value : String)
  | setChild (name value : String)
  | clear
  | keep
  | rebuild
  | removeChild (name : String)
  | removeAttributes
  | mark (description : Option String)
  | annotate (name value : String)

/-- The element after the edit; none if there is nothing to apply it to. `rebuild` keeps only the start of the
element, under a new id; `annotate` adds a marker with the element's name and a value. -/
def TagEdit.apply (t : Tag) : TagEdit → Fresh (Option Tag)
  | setValue value => some <$> t.withValue value
  | appendValue suffix => some <$> t.withValue (t.value?.getD "" ++ suffix)
  | rename name => return some (t.withName name)
  | setLeading leading => return some { t with leading }
  | setAttribute key value => return t.withAttributeValue? key value
  | setChild name value => t.withChildValue? name value
  | clear => some <$> t.withContent []
  | keep => return some t
  | rebuild => do
    match ← (Tag.new t.leading t.name t.attributes t.beforeClose none).run with
    | .ok new => return some new
    | .error _ => return none
  | removeChild name =>
    match t.child? name with
    | some c => some <$> t.withoutChild c.id
    | none => return none
  | removeAttributes => return some { t with attributes := [] }
  | mark description => return some { t with markers := t.markers ++ [← Marker.newSearchResult description] }
  | annotate name value =>
    let values := .ofList [("a", t.name), ("v", value)]
    return some { t with markers := t.markers ++ [← Marker.newGeneric name values] }

/-- The edit of the given name, with the key and the value it takes. -/
def TagEdit.ofName? (name value key : String) : Option TagEdit :=
  match name with
  | "setValue" => some (.setValue value)
  | "append" => some (.appendValue value)
  | "rename" => some (.rename value)
  | "prefix" => some (.setLeading value)
  | "setAttr" => some (.setAttribute key value)
  | "setChild" => some (.setChild key value)
  | "clear" => some .clear
  | "clone" => some .keep
  | "fresh" => some .rebuild
  | "removeChild" => some (.removeChild key)
  | "removeAttrs" => some .removeAttributes
  | "mark" => some (.mark (Text.nonempty? value))
  | "markGeneric" => some (.annotate key value)
  | _ => none

end Emend.Markup
