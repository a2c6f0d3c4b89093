import Emend.Markup.Node
import Emend.Text.Blank

/-! # Looking into trees

Children, values and attributes of elements, decoded.
-/

namespace Emend.Markup

def Attribute.value (a : Attribute) : String := unescape a.rawValue

/-- The characters that the node stands for; those of a `CDATA` section are kept as written. -/
def CharData.value (d : CharData) : String := if d.cdata then d.text else unescape d.text

def findAttribute? (key : String) (as : List Attribute) : Option Attribute := as.find? (·.key == key)

def Declaration.attributeValue? (key : String) (d : Declaration) : Option String :=
  (findAttribute? key d.attributes).map Attribute.value

/-- The name of the declared root element: the first piece of the body between blanks and `[`. -/
def DocType.rootName? (d : DocType) : Option String :=
  (((Text.splitWhere (fun c => Text.isBlank c || c == '[') d.body.toList).find? (· ≠ [])).map String.ofList)

namespace Tag

def localName (t : Tag) : String :=
  match Text.breakLast? (· == ':') t.name.toList with
  | some (_, rest) => String.ofList rest
  | none => t.name

def isSelfClosing (t : Tag) : Bool := t.content.isNone

def items (t : Tag) : List Content := t.content.getD []

def children (t : Tag) : List Tag := t.items.filterMap Content.tag?

def childrenNamed (t : Tag) (name : String) : List Tag := t.children.filter (·.name == name)

def child? (t : Tag) (name : String) : Option Tag := t.children.find? (·.name == name)

def textOf : List Content → Option String
  | [] => some ""
  | .charData d :: cs => (textOf cs).map (d.value ++ ·)
  | _ :: _ => none

/-- The decoded text without blanks at its ends, if the content is character data only. -/
def value? (t : Tag) : Option String := do
  let items ← t.content
  let text ← textOf items
  return Text.trim text

def childValue? (t : Tag) (name : String) : Option String := do (← t.child? name).value?

def attribute? (t : Tag) (key : String) : Option Attribute := findAttribute? key t.attributes

def attributeValue? (t : Tag) (key : String) : Option String := (t.attribute? key).map Attribute.value

end Tag
end Emend.Markup
