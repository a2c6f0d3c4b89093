import Emend.Archive
import Emend.Proofs.Json.Decoding
import Emend.Proofs.Markup.Elements

/-! # Decoding what was encoded

Every node is decoded from its encoding, field by field. Encodings hold natural numbers of 64 bits only, and
each element takes three levels of nesting.
-/

namespace Emend.Archive

open Json Markup
open Json.Record

@[simp] theorem plain_nat {n : Nat} (h : n ≤ 0xffffffffffffffff) : (Json.nat n).Plain :=
  ⟨Int.natCast_nonneg n, by omega⟩

@[simp] theorem plain_encodeId (i : NodeId) : (encodeId i).Plain :=
  plain_nat (Nat.le_of_lt_succ i.value.toNat_lt)

@[simp] theorem plain_string (s : String) : (Json.string s).Plain := trivial

@[simp] theorem plain_bool (b : Bool) : (Json.bool b).Plain := trivial

@[simp] theorem plain_null : Json.null.Plain := trivial

theorem plainAll_map {α : Type} {f : α → Json} (h : ∀ a, (f a).Plain) (as : List α) : PlainAll (as.map f) := by
  refine plainAll_iff.2 fun j hj => ?_
  obtain ⟨a, _, rfl⟩ := List.mem_map.1 hj
  exact h a

@[simp] theorem plain_orNull {α : Type} {f : α → Json} (h : ∀ a, (f a).Plain) (o : Option α) : (orNull f o).Plain := by
  cases o with
  | none => trivial
  | some a => exact h a

@[simp] theorem plain_encodeMarker (m : Marker) : (encodeMarker m).Plain := by
  cases m with
  | searchResult id description => cases description <;> simp [encodeMarker, ofOption]
  | generic id name values =>
    have hv : PlainFields (values.entries.map fun e => (e.1, .string e.2)) := by
      refine plainFields_iff.2 fun f hf => ?_
      obtain ⟨_, _, rfl⟩ := List.mem_map.1 hf
      trivial
    simp [encodeMarker, hv]

@[simp] theorem plain_encodeMarkers (ms : List Marker) : (encodeMarkers ms).Plain := plainAll_map plain_encodeMarker ms

@[simp] theorem plain_encodeAttribute (a : Attribute) : (encodeAttribute a).Plain := by
  cases h : a.quote <;> simp [encodeAttribute, encodeQuote, h]

@[simp] theorem plain_encodeAttributes (as : List Attribute) : (encodeAttributes as).Plain :=
  plainAll_map plain_encodeAttribute as

@[simp] theorem plain_encodeClosing (c : Closing) : (encodeClosing c).Plain := by
  simp [encodeClosing]

@[simp] theorem plain_encodeCharData (d : CharData) : (encodeCharData d).Plain := by
  simp [encodeCharData]

@[simp] theorem plain_encodeComment (c : Comment) : (encodeComment c).Plain := by
  simp [encodeComment]

@[simp] theorem plain_encodeInstruction (i : Instruction) : (encodeInstruction i).Plain := by
  simp [encodeInstruction]

@[simp] theorem plain_encodeDocType (d : DocType) : (encodeDocType d).Plain := by
  simp [encodeDocType]

@[simp] theorem plain_typed {type : String} {node : Json} (h : node.Plain) : (typed type node).Plain := by
  simp [typed, h]

@[simp] theorem plain_encodeMisc (m : Misc) : (encodeMisc m).Plain := by
  cases m <;> simp [encodeMisc]

mutual

theorem plain_encodeTag (t : Tag) : (encodeTag t).Plain := by
  obtain ⟨_, _, _, _, _, content, closing, _⟩ := t
  have hb := plain_encodeBody content
  simp [encodeTag, hb]

theorem plain_encodeContent (c : Content) : (encodeContent c).Plain := by
  cases c with
  | tag t => exact plain_typed (plain_encodeTag t)
  | charData d => exact plain_typed (plain_encodeCharData d)
  | comment c => exact plain_typed (plain_encodeComment c)
  | instruction i => exact plain_typed (plain_encodeInstruction i)

theorem plain_encodeBody (content : Option (List Content)) : (encodeBody content).Plain := by
  cases content with
  | none => trivial
  | some items => exact plain_encodeAll items

theorem plain_encodeAll (cs : List Content) : PlainAll (encodeAll cs) := by
  cases cs with
  | nil => trivial
  | cons c cs => exact ⟨plain_encodeContent c, plain_encodeAll cs⟩

end

@[simp] theorem plain_encodeDeclaration (d : Declaration) : (encodeDeclaration d).Plain := by
  simp [encodeDeclaration]

@[simp] theorem plainAll_encodeMisc (ms : List Misc) : PlainAll (ms.map encodeMisc) :=
  plainAll_map plain_encodeMisc ms

@[simp] theorem plain_encodeProlog (p : Prolog) : (encodeProlog p).Plain := by
  simp [encodeProlog]

theorem plain_encodeSource (s : Source) : (encodeSource s).Plain := by
  cases s with
  | markup d => simp [encodeSource, encodeDocument, plain_encodeTag]
  | text t => simp [encodeSource, encodePlainText]

theorem plain_envelope (s : Source) : (envelope s).Plain := by
  simp [envelope, version, plain_encodeSource]

theorem nestingAll_map_le {α : Type} {f : α → Json} {k : Nat} (h : ∀ a, (f a).nesting ≤ k) (as : List α) :
    nestingAll (as.map f) ≤ k := by
  induction as with
  | nil => exact Nat.zero_le k
  | cons a as ih =>
    rw [List.map_cons, nestingAll]
    exact Nat.max_le.2 ⟨h a, ih⟩

theorem nestingFields_strings (entries : List (String × String)) :
    nestingFields (entries.map fun e => (e.1, .string e.2)) = 0 := by
  induction entries with
  | nil => rfl
  | cons e entries ih =>
    rw [List.map_cons, nestingFields, ih]
    rfl

@[simp] theorem nesting_nat (n : Nat) : (Json.nat n).nesting = 0 := rfl

@[simp] theorem nesting_encodeId (i : NodeId) : (encodeId i).nesting = 0 := rfl

theorem nesting_orNull_le {α : Type} {f : α → Json} {k : Nat} (h : ∀ a, (f a).nesting ≤ k) (o : Option α) :
    (orNull f o).nesting ≤ k := by
  cases o with
  | none => exact Nat.zero_le k
  | some a => exact h a

theorem nesting_encodeMarker_le (m : Marker) : (encodeMarker m).nesting ≤ 2 := by
  cases m with
  | searchResult id description => cases description <;> simp [encodeMarker, nesting, nestingFields, ofOption]
  | generic id name values => simp [encodeMarker, nesting, nestingFields, nestingFields_strings]

theorem nesting_encodeMarkers_le (ms : List Marker) : (encodeMarkers ms).nesting ≤ 3 :=
  Nat.succ_le_succ (nestingAll_map_le nesting_encodeMarker_le ms)

theorem nesting_encodeAttribute_le (a : Attribute) : (encodeAttribute a).nesting ≤ 4 := by
  have hm := nesting_encodeMarkers_le a.markers
  have hq : (encodeQuote a.quote).nesting = 0 := by cases a.quote <;> rfl
  simp only [encodeAttribute, nesting, nestingFields, nesting_encodeId, hq]
  omega

theorem nesting_encodeAttributes_le (as : List Attribute) : (encodeAttributes as).nesting ≤ 5 :=
  Nat.succ_le_succ (nestingAll_map_le nesting_encodeAttribute_le as)

theorem nesting_encodeClosing (c : Closing) : (encodeClosing c).nesting = 1 := rfl

theorem nesting_typed (type : String) (node : Json) : (typed type node).nesting = node.nesting + 1 := by
  simp [typed, nesting, nestingFields]

theorem nesting_encodeMisc_le (m : Misc) : (encodeMisc m).nesting ≤ 2 := by
  cases m <;> exact Nat.le_of_eq (nesting_typed _ _)

mutual

/-- An element takes three levels and room for its attributes and their markers. -/
theorem nesting_encodeTag (t : Tag) : t.depth ≤ (encodeTag t).nesting ∧ (encodeTag t).nesting ≤ 3 * t.depth + 3 := by
  obtain ⟨_, _, markers, _, attributes, content, closing, _⟩ := t
  have hm := nesting_encodeMarkers_le markers
  have ha := nesting_encodeAttributes_le attributes
  have hb := nesting_encodeBody content
  have hc := nesting_orNull_le (fun c => Nat.le_of_eq (nesting_encodeClosing c)) closing
  simp only [encodeTag, Tag.depth, nesting, nestingFields, nesting_encodeId]
  omega

theorem nesting_encodeBody (content : Option (List Content)) :
    Content.depthBody content ≤ (encodeBody content).nesting ∧
    (encodeBody content).nesting ≤ 3 * Content.depthBody content + 5 := by
  cases content with
  | none => exact ⟨Nat.le_refl 0, Nat.zero_le _⟩
  | some items =>
    have hi := nesting_encodeAll items
    rw [encodeBody, nesting, Content.depthBody]
    omega

theorem nesting_encodeContent (c : Content) :
    c.depth ≤ (encodeContent c).nesting ∧ (encodeContent c).nesting ≤ 3 * c.depth + 4 := by
  cases c with
  | tag t =>
    have ht := nesting_encodeTag t
    rw [encodeContent, nesting_typed, Content.depth]
    omega
  | charData d => exact ⟨Nat.zero_le _, Nat.le_add_left _ _⟩
  | comment c => exact ⟨Nat.zero_le _, Nat.le_add_left _ _⟩
  | instruction i => exact ⟨Nat.zero_le _, Nat.le_add_left _ _⟩

theorem nesting_encodeAll (cs : List Content) :
    Content.depthAll cs ≤ nestingAll (encodeAll cs) ∧ nestingAll (encodeAll cs) ≤ 3 * Content.depthAll cs + 4 := by
  cases cs with
  | nil => exact ⟨Nat.le_refl 0, Nat.zero_le _⟩
  | cons c cs =>
    have hc := nesting_encodeContent c
    have hcs := nesting_encodeAll cs
    rw [encodeAll, nestingAll, Content.depthAll]
    omega

end

theorem nesting_encodeDeclaration_le (d : Declaration) : (encodeDeclaration d).nesting ≤ 6 := by
  have ha := nesting_encodeAttributes_le d.attributes
  simp only [encodeDeclaration, nesting, nestingFields, nesting_encodeId]
  omega

theorem nesting_encodeProlog_le (p : Prolog) : (encodeProlog p).nesting ≤ 7 := by
  have hm := nestingAll_map_le nesting_encodeMisc_le p.misc
  have hd := nesting_orNull_le nesting_encodeDeclaration_le p.declaration
  simp only [encodeProlog, nesting, nestingFields, nesting_encodeId]
  omega

theorem nesting_envelope (s : Source) : (envelope s).nesting = (encodeSource s).nesting + 1 := by
  simp [envelope, nesting, nestingFields]

/-- The envelope nests at least as deep as the elements in it, and no deeper than their three levels each and
the room for what else there is. -/
theorem nesting_encodeSource (s : Source) :
    s.depth ≤ (encodeSource s).nesting ∧ (encodeSource s).nesting ≤ 3 * s.depth + 9 := by
  cases s with
  | markup d =>
    have hm := nesting_encodeMarkers_le d.markers
    have hp := nesting_encodeProlog_le d.prolog
    have hr := nesting_encodeTag d.root
    have he := nestingAll_map_le nesting_encodeMisc_le d.epilog
    simp only [encodeSource, encodeDocument, Source.depth, nesting, nestingFields, nesting_encodeId]
    omega
  | text t =>
    have hm := nesting_encodeMarkers_le t.markers
    simp only [encodeSource, encodePlainText, Source.depth, nesting, nestingFields, nesting_encodeId]
    omega

/-- What the scan for brackets allows leaves room for all trees that are not nested too deep. -/
theorem nesting_envelope_le {s : Source} (h : s.depth ≤ maxDepth) : (envelope s).nesting ≤ maxNesting := by
  have := (nesting_encodeSource s).2
  rw [nesting_envelope, maxNesting]
  omega

theorem decodes_id (i : NodeId) : Decodes decodeId (encodeId i) i := by
  have h := (decodes_nat "u64" i.value.toNat_lt).map fun n => (⟨n.toUInt64⟩ : NodeId)
  have hi : (⟨i.value.toNat.toUInt64⟩ : NodeId) = i := by
    rw [Nat.toUInt64, UInt64.ofNat_toNat]
  rw [hi] at h
  exact h

theorem decodes_string (s : String) : Decodes decodeString (.string s) s := decodes_text _ s

theorem decodes_ofOption (s : Option String) : Decodes (decodeOption decodeString) (.ofOption s) s := by
  cases s with
  | none => exact decodes_none
  | some s => exact decodes_some nofun (decodes_string s)

theorem decodes_marker (m : Marker) : Decodes decodeMarker (encodeMarker m) m := by
  have hp := plain_encodeMarker m
  cases m with
  | searchResult id description =>
    exact decodes_inlineTagged rfl (by simp) hp.2 <| decodes_record
      (fills_both (decodes_id id) (by simp) <|
      fills_fieldWith (decodes_ofOption description) (by simp)) rfl
  | generic id name values =>
    exact decodes_inlineTagged rfl (by simp) hp.2 <| decodes_record
      (fills_both (decodes_id id) (by simp) <|
      fills_both (decodes_string name) (by simp) <|
      fills_fieldWith (decodes_map decodes_string values) (by simp)) rfl

theorem decodes_markers (ms : List Marker) : Decodes decodeMarkers (encodeMarkers ms) ms :=
  decodes_list fun m _ => decodes_marker m

theorem decodes_quote (q : Quote) : Decodes decodeQuote (encodeQuote q) q := by
  cases q <;> exact decodes_choice rfl

theorem decodes_attribute (a : Attribute) :
    Decodes (attributeRecord.decoder "struct Attribute" false) (encodeAttribute a) a := by
  exact decodes_record
    (fills_both (decodes_id a.id) (by simp) <|
    fills_both (decodes_string a.leading) (by simp) <|
    fills_both (decodes_markers a.markers) (by simp) <|
    fills_both (decodes_string a.key) (by simp) <|
    fills_both (decodes_string a.beforeEquals) (by simp) <|
    fills_both (decodes_string a.afterEquals) (by simp) <|
    fills_both (decodes_quote a.quote) (by simp) <|
    fills_fieldWith (decodes_string a.rawValue) (by simp)) rfl

theorem decodes_attributes (as : List Attribute) : Decodes decodeAttributes (encodeAttributes as) as :=
  decodes_list fun a _ => decodes_attribute a

theorem decodes_closing (c : Closing) : Decodes (closingRecord.decoder "struct Closing" false) (encodeClosing c) c := by
  exact decodes_record
    (fills_both (decodes_id c.id) (by simp) <|
    fills_both (decodes_string c.leading) (by simp) <|
    fills_both (decodes_string c.name) (by simp) <|
    fills_fieldWith (decodes_string c.beforeClose) (by simp)) rfl

theorem decodes_charData (d : CharData) : Decodes decodeCharData (encodeCharData d) d := by
  exact decodes_record
    (fills_both (decodes_id d.id) (by simp) <|
    fills_both (decodes_string d.leading) (by simp) <|
    fills_both (decodes_bool d.cdata) (by simp) <|
    fills_fieldWith (decodes_string d.text) (by simp)) rfl

theorem decodes_comment (c : Comment) : Decodes decodeComment (encodeComment c) c := by
  exact decodes_record
    (fills_both (decodes_id c.id) (by simp) <|
    fills_both (decodes_string c.leading) (by simp) <|
    fills_fieldWith (decodes_string c.text) (by simp)) rfl

theorem decodes_instruction (i : Instruction) : Decodes decodeInstruction (encodeInstruction i) i := by
  exact decodes_record
    (fills_both (decodes_id i.id) (by simp) <|
    fills_both (decodes_string i.leading) (by simp) <|
    fills_both (decodes_string i.target) (by simp) <|
    fills_fieldWith (decodes_string i.content) (by simp)) rfl

theorem decodes_docType (d : DocType) :
    Decodes (docTypeRecord.decoder "struct DocTypeDecl" false) (encodeDocType d) d := by
  exact decodes_record
    (fills_both (decodes_id d.id) (by simp) <|
    fills_both (decodes_string d.leading) (by simp) <|
    fills_fieldWith (decodes_string d.body) (by simp)) rfl

theorem decodes_misc (m : Misc) : Decodes decodeMisc (encodeMisc m) m := by
  cases m with
  | comment c => exact decodes_tagged (by decide) rfl ((decodes_comment c).map _)
  | instruction i => exact decodes_tagged (by decide) rfl ((decodes_instruction i).map _)
  | docType d => exact decodes_tagged (by decide) rfl ((decodes_docType d).map _)

theorem decodes_miscs (ms : List Misc) : Decodes (decodeList decodeMisc) (.array (ms.map encodeMisc)) ms :=
  decodes_list fun m _ => decodes_misc m

theorem encodeAll_eq_map (cs : List Content) : encodeAll cs = cs.map encodeContent := by
  induction cs with
  | nil => rfl
  | cons c cs ih => rw [encodeAll, ih, List.map_cons]

theorem decodes_orNull {α : Type} {d : Decoder α} {f : α → Json} (h : ∀ a, Decodes d (f a) a) (hf : ∀ a, f a ≠ .null)
    (o : Option α) : Decodes (decodeOption d) (orNull f o) o := by
  cases o with
  | none => exact decodes_none
  | some a => exact decodes_some (hf a) (h a)

theorem decodes_body {d : Decoder Content} {content : Option (List Content)}
    (h : ∀ items ∈ content, ∀ c ∈ items, Decodes d (encodeContent c) c) :
    Decodes (decodeOption (decodeList d)) (encodeBody content) content := by
  cases content with
  | none => exact decodes_none
  | some items =>
    rw [encodeBody, encodeAll_eq_map]
    exact decodes_some nofun (decodes_list (h items rfl))

/-- An element from its own fields, given that what it holds is decoded. -/
theorem decodes_tag_of {t : Tag} {d : Decoder Content}
    (h : ∀ items ∈ t.content, ∀ c ∈ items, Decodes d (encodeContent c) c) : Decodes (decodeTag d) (encodeTag t) t := by
  obtain ⟨id, leading, markers, name, attributes, content, closing, beforeClose⟩ := t
  rw [encodeTag]
  exact decodes_record
    (fills_both (decodes_id id) (by simp) <|
    fills_both (decodes_string leading) (by simp) <|
    fills_both (decodes_markers markers) (by simp) <|
    fills_both (decodes_string name) (by simp) <|
    fills_both (decodes_attributes attributes) (by simp) <|
    fills_both (decodes_body h) (by simp) <|
    fills_both (decodes_orNull decodes_closing nofun closing) (by simp) <|
    fills_fieldWith (decodes_string beforeClose) (by simp)) rfl

/-- What an element holds is less deep than the element. -/
theorem depth_lt_of_mem {t : Tag} {items : List Content} (h : t.content = some items) {c : Content} (hc : c ∈ items) :
    c.depth < t.depth := by
  have key : ∀ items : List Content, c ∈ items → c.depth ≤ Content.depthAll items := by
    intro items
    induction items with
    | nil => intro hc; cases hc
    | cons d ds ih =>
      intro hc
      rw [Content.depthAll]
      rcases List.mem_cons.1 hc with rfl | hc
      · exact Nat.le_max_left _ _
      · exact Nat.le_trans (ih hc) (Nat.le_max_right _ _)
  obtain ⟨_, _, _, _, _, content, _, _⟩ := t
  obtain rfl : content = some items := h
  exact Nat.lt_succ_of_le (key items hc)

/-- The bound of the decoder is on elements, so what holds none is decoded under any but zero. -/
theorem decodes_content {depth : Nat} (c : Content) (h : c.depth < depth) :
    Decodes (decodeContent depth) (encodeContent c) c := by
  induction depth generalizing c with
  | zero => exact absurd h (Nat.not_lt_zero _)
  | succ depth ih =>
    cases c with
    | tag t =>
      have ht : Decodes (decodeTag (decodeContent depth)) (encodeTag t) t := by
        refine decodes_tag_of fun items hi c hc => ih c ?_
        have := depth_lt_of_mem hi hc
        rw [Content.depth] at h
        omega
      exact decodes_tagged (by decide) rfl (ht.map _)
    | charData d => exact decodes_tagged (by decide) rfl ((decodes_charData d).map _)
    | comment c => exact decodes_tagged (by decide) rfl ((decodes_comment c).map _)
    | instruction i => exact decodes_tagged (by decide) rfl ((decodes_instruction i).map _)

theorem decodes_tag {depth : Nat} {t : Tag} (h : t.depth ≤ depth) :
    Decodes (decodeTag (decodeContent depth)) (encodeTag t) t :=
  decodes_tag_of fun _ hi c hc => decodes_content c (Nat.lt_of_lt_of_le (depth_lt_of_mem hi hc) h)

theorem decodes_path (p : FilePath) : Decodes decodePath (.string p.text) p :=
  (decodes_text "path string" p.text).map _

theorem decodes_kind (k : SourceKind) : Decodes decodeKind (.string k.tag) k := by
  cases k <;> exact decodes_choice rfl

theorem decodes_declaration (d : Declaration) :
    Decodes (declarationRecord.decoder "struct XmlDecl" false) (encodeDeclaration d) d :=
  decodes_record
    (fills_both (decodes_id d.id) (by simp) <|
    fills_both (decodes_string d.leading) (by simp) <|
    fills_both (decodes_attributes d.attributes) (by simp) <|
    fills_fieldWith (decodes_string d.beforeClose) (by simp)) rfl

theorem decodes_prolog (p : Prolog) : Decodes (prologRecord.decoder "struct Prolog" false) (encodeProlog p) p :=
  decodes_record
    (fills_both (decodes_id p.id) (by simp) <|
    fills_both (decodes_orNull decodes_declaration nofun p.declaration) (by simp) <|
    fills_fieldWith (decodes_miscs p.misc) (by simp)) rfl

theorem decodes_document {depth : Nat} {d : Document} (h : d.root.depth ≤ depth) :
    Decodes ((documentRecord (decodeTag (decodeContent depth))).decoder "struct Document" false) (encodeDocument d) d :=
  decodes_record
    (fills_both (decodes_id d.id) (by simp) <|
    fills_both (decodes_path d.path) (by simp) <|
    fills_both (decodes_kind d.kind) (by simp) <|
    fills_both (decodes_markers d.markers) (by simp) <|
    fills_both (decodes_bool d.bom) (by simp) <|
    fills_both (decodes_prolog d.prolog) (by simp) <|
    fills_both (decodes_tag h) (by simp) <|
    fills_both (decodes_miscs d.epilog) (by simp) <|
    fills_fieldWith (decodes_string d.eof) (by simp)) rfl

theorem decodes_plainText (t : PlainText) :
    Decodes (plainTextRecord.decoder "struct PlainText" false) (encodePlainText t) t :=
  decodes_record
    (fills_both (decodes_id t.id) (by simp) <|
    fills_both (decodes_path t.path) (by simp) <|
    fills_both (decodes_markers t.markers) (by simp) <|
    fills_fieldWith (decodes_string t.text) (by simp)) rfl

theorem decodes_source {depth : Nat} {s : Source} (h : s.depth ≤ depth) :
    Decodes (decodeSource depth) (encodeSource s) s := by
  cases s with
  | markup d => exact decodes_tagged (by decide) rfl ((decodes_document h).map _)
  | text t => exact decodes_tagged (by decide) rfl ((decodes_plainText t).map _)

theorem decodes_header (s : Source) : Decodes decodeHeader (envelope s) (format, version) :=
  Fills.decoder (fills_both (decodes_string format) (by simp)
    (fills_fieldWith (decodes_nat "u32" (by decide)) (by simp))) _

theorem decodes_envelope (s : Source) : Decodes (decodeEnvelope (envelope s).nesting) (envelope s) s := by
  have hd : s.depth ≤ (envelope s).nesting := by
    rw [nesting_envelope]
    exact Nat.le_succ_of_le (nesting_encodeSource s).1
  have hs : Fills (field "source" (decodeSource (envelope s).nesting)) [("source", encodeSource s)] s :=
    fills_fieldWith (decodes_source hd) (by simp)
  exact Fills.decoder ((hs.skip fun _ => rfl).skip fun _ => rfl) _

end Emend.Archive
