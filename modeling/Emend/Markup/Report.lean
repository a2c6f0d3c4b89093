import Emend.Json.Access
import Emend.Markup.Print
import Emend.Markup.Query
import Emend.Markup.Validity

/-! # Reports of nodes

What elements and documents consist of, as JSON values.
-/

namespace Emend.Markup

def Check.report : Check → Json
  | .ok () => .null
  | .error v => .string v.message

def Attribute.report (a : Attribute) : Json :=
  .ofStrings [a.key, a.value, a.rawValue, if a.quote = .single then "single" else "double", a.leading]

def Tag.report (t : Tag) : Json := .object [
  ("name", .string t.name), ("local", .string t.localName), ("prefix", .string t.leading),
  ("beforeClose", .string t.beforeClose), ("selfClosing", .bool t.isSelfClosing), ("value", .ofOption t.value?),
  ("children", .ofStrings (t.children.map (·.name))),
  ("content", .orNull (fun items => .ofStrings (items.map Content.print)) t.content),
  ("attributes", .array (t.attributes.map Attribute.report)),
  ("closing", .orNull (fun c => .ofStrings [c.leading, c.name, c.print]) t.closing),
  ("markers", .nat t.markers.length), ("hasSearchResult", .bool (hasSearchResult t.markers)),
  ("markersEmpty", .bool t.markers.isEmpty), ("print", .string t.print)]

def Declaration.report (key : String) (d : Declaration) : Json := .object [
  ("prefix", .string d.leading), ("keys", .ofStrings (d.attributes.map (·.key))),
  ("value", .ofOption (d.attributeValue? key))]

def Document.report (key : String) (d : Document) : Json := .object [
  ("bom", .bool d.bom), ("eof", .string d.eof), ("kind", .string d.kind.tag),
  ("misc", .ofStrings (d.prolog.misc.map Misc.print)), ("prolog", .string d.prolog.print),
  ("decl", .orNull (Declaration.report key) d.prolog.declaration),
  ("epilog", .ofStrings (d.epilog.map Misc.print)),
  ("doctypes", .array (d.prolog.misc.filterMap fun
    | .docType t => some (.array [.string t.leading, .ofOption t.rootName?, .string t.body])
    | _ => none)),
  ("validate", d.check.report)]

end Emend.Markup
