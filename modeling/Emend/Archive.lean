import Emend.Error
import Emend.Json.Printer
import Emend.Json.Reader
import Emend.Json.Shape
import Emend.Markup.Validity
import Emend.Source

/-! # Stored trees

A source file as a JSON envelope with format and version, holding every field, id and marker. Reading
checks the nesting on the raw bytes, then the envelope, then the shape of the tree, then that the nodes
keep their rules.
-/

namespace Emend.Archive

open Markup

def format : String := "remold-lst"

def version : Nat := 1

/-- Three levels an element, and room for the envelope and the leaves of the deepest element. -/
def maxNesting : Nat := 3 * maxDepth + 16

def encodeId (i : NodeId) : Json := .nat i.value.toNat

def encodeMarker : Marker → Json
  | .searchResult id description => .object [
      ("type", .string "searchResult"), ("id", encodeId id), ("description", .ofOption description)]
  | .generic id name values => .object [
      ("type", .string "generic"), ("id", encodeId id), ("name", .string name),
      ("values", .object (values.entries.map fun (k, v) => (k, .string v)))]

def encodeMarkers (markers : List Marker) : Json := .array (markers.map encodeMarker)

def encodeQuote : Quote → Json
  | .double => .string "double"
  | .single => .string "single"

def encodeAttribute (a : Attribute) : Json := .object [
  ("id", encodeId a.id), ("prefix", .string a.leading), ("markers", encodeMarkers a.markers),
  ("key", .string a.key), ("beforeEquals", .string a.beforeEquals), ("afterEquals", .string a.afterEquals),
  ("quote", encodeQuote a.quote), ("rawValue", .string a.rawValue)]

def encodeAttributes (as : List Attribute) : Json := .array (as.map encodeAttribute)

def encodeClosing (c : Closing) : Json := .object [
  ("id", encodeId c.id), ("prefix", .string c.leading), ("name", .string c.name),
  ("beforeClose", .string c.beforeClose)]

def encodeCharData (d : CharData) : Json := .object [
  ("id", encodeId d.id), ("prefix", .string d.leading), ("cdata", .bool d.cdata), ("text", .string d.text)]

def encodeComment (c : Comment) : Json := .object [
  ("id", encodeId c.id), ("prefix", .string c.leading), ("text", .string c.text)]

def encodeInstruction (i : Instruction) : Json := .object [
  ("id", encodeId i.id), ("prefix", .string i.leading), ("target", .string i.target),
  ("content", .string i.content)]

def encodeDocType (d : DocType) : Json := .object [
  ("id", encodeId d.id), ("prefix", .string d.leading), ("body", .string d.body)]

def orNull {α : Type} (encode : α → Json) : Option α → Json
  | some a => encode a
  | none => .null

def typed (type : String) (node : Json) : Json := .object [("type", .string type), ("node", node)]

def encodeMisc : Misc → Json
  | .comment c => typed "comment" (encodeComment c)
  | .instruction i => typed "processingInstruction" (encodeInstruction i)
  | .docType d => typed "docType" (encodeDocType d)

mutual

def encodeTag : Tag → Json
  | ⟨id, leading, markers, name, attributes, content, closing, beforeClose⟩ => .object [
      ("id", encodeId id), ("prefix", .string leading), ("markers", encodeMarkers markers),
      ("name", .string name), ("attributes", encodeAttributes attributes),
      ("content", encodeBody content), ("closing", orNull encodeClosing closing),
      ("beforeClose", .string beforeClose)]

def encodeBody : Option (List Content) → Json
  | some items => .array (encodeAll items)
  | none => .null

def encodeContent : Content → Json
  | .tag t => typed "tag" (encodeTag t)
  | .charData d => typed "charData" (encodeCharData d)
  | .comment c => typed "comment" (encodeComment c)
  | .instruction i => typed "processingInstruction" (encodeInstruction i)

def encodeAll : List Content → List Json
  | [] => []
  | c :: cs => encodeContent c :: encodeAll cs

end

def encodeDeclaration (d : Declaration) : Json := .object [
  ("id", encodeId d.id), ("prefix", .string d.leading), ("attributes", encodeAttributes d.attributes),
  ("beforeClose", .string d.beforeClose)]

def encodeProlog (p : Prolog) : Json := .object [
  ("id", encodeId p.id),
  ("xmlDecl", orNull encodeDeclaration p.declaration), ("misc", .array (p.misc.map encodeMisc))]

def encodeDocument (d : Document) : Json := .object [
  ("id", encodeId d.id), ("sourcePath", .string d.path.text), ("kind", .string d.kind.tag),
  ("markers", encodeMarkers d.markers), ("bom", .bool d.bom), ("prolog", encodeProlog d.prolog),
  ("root", encodeTag d.root), ("epilog", .array (d.epilog.map encodeMisc)), ("eof", .string d.eof)]

def encodePlainText (t : PlainText) : Json := .object [
  ("id", encodeId t.id), ("sourcePath", .string t.path.text), ("markers", encodeMarkers t.markers),
  ("text", .string t.text)]

def encodeSource : Source → Json
  | .markup d => .object [("language", .string "xml"), ("tree", encodeDocument d)]
  | .text t => .object [("language", .string "text"), ("tree", encodePlainText t)]

def envelope (s : Source) : Json := .object [
  ("format", .string format), ("version", .nat version), ("source", encodeSource s)]

def write (pretty : Bool) (s : Source) : String :=
  if pretty then (envelope s).printPretty 0 else (envelope s).print

open Json
open Json.Record

def decodeId : Decoder NodeId := (decodeNat 64 "u64").map fun n => ⟨n.toUInt64⟩

def decodePath : Decoder FilePath := (decodeText "path string").map (⟨·⟩)

def searchResultRecord : Record Marker :=
  ((field "id" decodeId).both (optional "description" decodeString)).map fun (id, description) =>
    .searchResult id description

def genericRecord : Record Marker :=
  ((field "id" decodeId).both ((field "name" decodeString).both (field "values" (decodeMap decodeString)))).map
    fun (id, name, values) => .generic id name values

def decodeMarker : Decoder Marker := decodeInlineTagged "Marker" "type" [
  ("searchResult", searchResultRecord.decoder "struct variant Marker::SearchResult" false),
  ("generic", genericRecord.decoder "struct variant Marker::Generic" false)]

def decodeMarkers : Decoder (List Marker) := decodeList decodeMarker

def decodeQuote : Decoder Quote := decodeChoice [("double", .double), ("single", .single)]

def decodeKind : Decoder SourceKind :=
  decodeChoice [("text", .text), ("xml", .xml), ("mavenPom", .mavenPom)]

def attributeRecord : Record Attribute :=
  ((field "id" decodeId).both ((field "prefix" decodeString).both ((field "markers" decodeMarkers).both
    ((field "key" decodeString).both ((field "beforeEquals" decodeString).both
      ((field "afterEquals" decodeString).both ((field "quote" decodeQuote).both
        (field "rawValue" decodeString)))))))).map
    fun (id, leading, markers, key, beforeEquals, afterEquals, quote, rawValue) =>
      { id, leading, markers, key, beforeEquals, afterEquals, quote, rawValue }

def decodeAttributes : Decoder (List Attribute) :=
  decodeList (attributeRecord.decoder "struct Attribute" false)

def closingRecord : Record Closing :=
  ((field "id" decodeId).both ((field "prefix" decodeString).both ((field "name" decodeString).both
    (field "beforeClose" decodeString)))).map
    fun (id, leading, name, beforeClose) => { id, leading, name, beforeClose }

def charDataRecord : Record CharData :=
  ((field "id" decodeId).both ((field "prefix" decodeString).both ((field "cdata" decodeBool).both
    (field "text" decodeString)))).map
    fun (id, leading, cdata, text) => { id, leading, cdata, text }

def decodeCharData : Decoder CharData := charDataRecord.decoder "struct CharData" false

def commentRecord : Record Comment :=
  ((field "id" decodeId).both ((field "prefix" decodeString).both (field "text" decodeString))).map
    fun (id, leading, text) => { id, leading, text }

def decodeComment : Decoder Comment := commentRecord.decoder "struct Comment" false

def instructionRecord : Record Instruction :=
  ((field "id" decodeId).both ((field "prefix" decodeString).both ((field "target" decodeString).both
    (field "content" decodeString)))).map
    fun (id, leading, target, content) => { id, leading, target, content }

def decodeInstruction : Decoder Instruction :=
  instructionRecord.decoder "struct ProcessingInstruction" false

def docTypeRecord : Record DocType :=
  ((field "id" decodeId).both ((field "prefix" decodeString).both (field "body" decodeString))).map
    fun (id, leading, body) => { id, leading, body }

def decodeMisc : Decoder Misc := decodeTagged "Misc" "type" "node" [
  ("comment", decodeComment.map .comment),
  ("processingInstruction", decodeInstruction.map .instruction),
  ("docType", (docTypeRecord.decoder "struct DocTypeDecl" false).map .docType)]

def tagRecord (content : Decoder Content) : Record Tag :=
  ((field "id" decodeId).both ((field "prefix" decodeString).both ((field "markers" decodeMarkers).both
    ((field "name" decodeString).both ((field "attributes" decodeAttributes).both
      ((optional "content" (decodeList content)).both
        ((optional "closing" (closingRecord.decoder "struct Closing" false)).both
          (field "beforeClose" decodeString)))))))).map
    fun (id, leading, markers, name, attributes, content, closing, beforeClose) =>
      { id, leading, markers, name, attributes, content, closing, beforeClose }

def decodeTag (content : Decoder Content) : Decoder Tag := (tagRecord content).decoder "struct Tag" false

/-- Content whose elements nest no deeper than `depth`; a value that nests no deeper than `depth` holds
none that do. -/
def decodeContent : (depth : Nat) → Decoder Content
  | 0 => fun _ j => refuse j "adjacently tagged enum Content"
  | depth + 1 => decodeTagged "Content" "type" "node" [
      ("tag", (decodeTag (decodeContent depth)).map .tag),
      ("charData", decodeCharData.map .charData),
      ("comment", decodeComment.map .comment),
      ("processingInstruction", decodeInstruction.map .instruction)]

def declarationRecord : Record Declaration :=
  ((field "id" decodeId).both ((field "prefix" decodeString).both ((field "attributes" decodeAttributes).both
    (field "beforeClose" decodeString)))).map
    fun (id, leading, attributes, beforeClose) => { id, leading, attributes, beforeClose }

def prologRecord : Record Prolog :=
  ((field "id" decodeId).both ((optional "xmlDecl" (declarationRecord.decoder "struct XmlDecl" false)).both
    (field "misc" (decodeList decodeMisc)))).map
    fun (id, declaration, misc) => { id, declaration, misc }

def documentRecord (root : Decoder Tag) : Record Document :=
  ((field "id" decodeId).both ((field "sourcePath" decodePath).both ((field "kind" decodeKind).both
    ((field "markers" decodeMarkers).both ((field "bom" decodeBool).both
      ((field "prolog" (prologRecord.decoder "struct Prolog" false)).both ((field "root" root).both
        ((field "epilog" (decodeList decodeMisc)).both (field "eof" decodeString))))))))).map
    fun (id, path, kind, markers, bom, prolog, root, epilog, eof) =>
      { id, path, kind, markers, bom, prolog, root, epilog, eof }

def plainTextRecord : Record PlainText :=
  ((field "id" decodeId).both ((field "sourcePath" decodePath).both ((field "markers" decodeMarkers).both
    (field "text" decodeString)))).map
    fun (id, path, markers, text) => { id, path, markers, text }

def decodeSource (depth : Nat) : Decoder Source := decodeTagged "SourceFile" "language" "tree" [
  ("xml", ((documentRecord (decodeTag (decodeContent depth))).decoder "struct Document" false).map .markup),
  ("text", (plainTextRecord.decoder "struct PlainText" false).map .text)]

def decodeHeader : Decoder (String × Nat) :=
  ((field "format" decodeString).both (field "version" (decodeNat 32 "u32"))).decoder "struct Header" false

def decodeEnvelope (depth : Nat) : Decoder Source :=
  (field "source" (decodeSource depth)).decoder "struct Envelope" false

/-- Where a scan for brackets stands: inside a string, behind a backslash there, how deep, the deepest. -/
structure BracketScan where
  inString : Bool := false
  escaped : Bool := false
  depth : Nat := 0
  deepest : Nat := 0

def BracketScan.step (b : BracketScan) (byte : UInt8) : BracketScan :=
  if b.inString then
    if b.escaped then { b with escaped := false }
    else if byte = 0x5C then { b with escaped := true }
    else if byte = 0x22 then { b with inString := false }
    else b
  else if byte = 0x22 then { b with inString := true }
  else if byte = 0x7B ∨ byte = 0x5B then
    { b with depth := b.depth + 1, deepest := max b.deepest (b.depth + 1) }
  else if byte = 0x7D ∨ byte = 0x5D then { b with depth := b.depth - 1 }
  else b

def bracketDepth (bytes : List UInt8) : Nat := (bytes.foldl BracketScan.step {}).deepest

inductive Refusal where
  | nestedTooDeep
  | malformed
  | shape (e : ShapeError)
  | unknownFormat (format : String)
  | unknownVersion (version : Nat)
  | invalid (path : FilePath) (violation : Violation)
  | printedDiffers (path : FilePath)

def Refusal.message : Refusal → String
  | nestedTooDeep => s!"Tree is nested deeper than {maxDepth} elements"
  | malformed => "<malformed JSON>"
  | shape e => e.message
  | unknownFormat format => s!"Unknown tree format '{format}'"
  | unknownVersion found => s!"Unsupported tree format version {found} (expected {version})"
  | invalid path violation => s!"Invalid tree for '{path.text}': {violation.message}"
  | printedDiffers path => s!"Round trip changed the printed text of '{path.text}'"

def Refusal.toError (r : Refusal) : Error := .serialization r.message

def ofJson (j : Json) : Except Refusal Source := do
  let (found, v) ← (decodeHeader .streamed j).mapError .shape
  if found ≠ format then throw (.unknownFormat found)
  if v ≠ version then throw (.unknownVersion v)
  let source ← (decodeEnvelope j.nesting .streamed j).mapError .shape
  match source with
  | .markup d => d.check.mapError (.invalid d.path)
  | .text _ => pure ()
  return source

def read (bytes : ByteArray) : Except Refusal Source :=
  if maxNesting < bracketDepth bytes.data.toList then .error .nestedTooDeep
  else match (String.fromUTF8? bytes).bind Json.parse? with
    | none => .error .malformed
    | some j => (ofJson j).mapError fun r => if j.inRange then r else .malformed

def verify (s : Source) : Except Refusal Source := do
  let restored ← read (write false s).toUTF8
  if restored.print = s.print then return restored else throw (.printedDiffers s.path)

end Emend.Archive
