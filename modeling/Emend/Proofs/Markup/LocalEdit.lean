import Emend.Proofs.Markup.ChildValue
import Emend.Proofs.Markup.Swap

/-! # Edits change the text where they are made

An element of a parsed document is given a value, or one of its attributes is, and is put back. The text is the old
one but for the content, or for what stands between the quotes, and it is read as a document in which the value is
found and the elements around it are those there were.
-/

namespace Emend.Markup

def Tag.body (t : Tag) : String :=
  match t.content, t.closing with
  | some items, some c => ">" ++ Content.printAll items ++ c.print
  | _, _ => "/>"

def Tag.bodyOf (t : Tag) (text : String) : String :=
  ">" ++ text ++ t.closing.elim ("</" ++ t.name ++ ">") Closing.print

def Attribute.opening (a : Attribute) : String :=
  a.leading ++ a.key ++ a.beforeEquals ++ "=" ++ a.afterEquals ++ a.quote.char.toString

/-- What an element prints up to the value of `a`, if the attributes `first` stand in front of that one. -/
def Tag.textBeforeValue (t : Tag) (first : List Attribute) (a : Attribute) : String :=
  t.leading ++ "<" ++ t.name ++ printAttributes first ++ a.opening

/-- What an element prints behind the value of `a`, if the attributes `more` stand behind that one. -/
def Tag.textBehindValue (t : Tag) (a : Attribute) (more : List Attribute) : String :=
  a.quote.char.toString ++ printAttributes more ++ t.beforeClose ++ t.body

theorem Tag.print_eq (t : Tag) : t.print = t.opening ++ t.body := by
  obtain ⟨id, leading, markers, name, attributes, content, closing, beforeClose⟩ := t
  cases content with
  | none => rfl
  | some items => cases closing <;> rfl

theorem Tag.print_eq_of_attributes {t : Tag} {first more : List Attribute} {a : Attribute}
    (h : t.attributes = first ++ a :: more) :
    t.print = t.textBeforeValue first a ++ a.rawValue ++ t.textBehindValue a more := by
  have join : printAttributes (first ++ a :: more) = printAttributes first ++ a.print ++ printAttributes more := by
    apply String.toList_injective
    simp [toList_printAttributes]
  rw [Tag.print_eq, Tag.opening, h, join, Attribute.print, Tag.textBeforeValue, Tag.textBehindValue, Attribute.opening]
  simp only [String.append_assoc]

theorem Tag.Sound.print_withValue {t : Tag} (h : t.Sound) (value : String) (s : Supply) :
    ((t.withValue value).run s).1.print = t.opening ++ t.bodyOf (escapeText value) := by
  obtain ⟨i, j, made⟩ := run_withValue t value s
  rw [made, Tag.print_withBody, h.runLeading, Tag.bodyOf, Tag.closingOrNew]
  cases t.closing <;> simp [Content.printAll, Content.print, CharData.print, Closing.print, String.append_assoc]

theorem Tag.exists_first {t : Tag} {key : String} (h : key ∈ t.attributes.map (·.key)) :
    ∃ first a more, t.attributes = first ++ a :: more ∧ a.key = key ∧ ∀ b ∈ first, b.key ≠ key := by
  obtain ⟨b, hb, rfl⟩ := List.mem_map.1 h
  have some : (t.attributes.find? (·.key == b.key)).isSome = true := List.find?_isSome.2 ⟨b, hb, beq_self_eq_true b.key⟩
  obtain ⟨a, found⟩ := Option.isSome_iff_exists.1 some
  obtain ⟨ha, first, more, split, hf⟩ := List.find?_eq_some_iff_append.1 found
  exact ⟨first, a, more, split, eq_of_beq ha, fun c hc => by simpa using hf c hc⟩

section

variable {key : String} {first more : List Attribute} {a : Attribute}

theorem withAttributeValue?_go (ha : a.key = key) (hf : ∀ b ∈ first, b.key ≠ key) (value : String) :
    Tag.withAttributeValue?.go key value (first ++ a :: more) = some (first ++ a.withValue value :: more) := by
  induction first with
  | nil => rw [List.nil_append, Tag.withAttributeValue?.go, if_pos ha, List.nil_append]
  | cons b first ih =>
    rw [List.cons_append, Tag.withAttributeValue?.go, if_neg (hf b List.mem_cons_self),
      ih fun c hc => hf c (List.mem_cons_of_mem b hc)]
    rfl

theorem Tag.attributeValue?_append {t : Tag} (h : t.attributes = first ++ a :: more) (ha : a.key = key)
    (hf : ∀ b ∈ first, b.key ≠ key) : t.attributeValue? key = some a.value := by
  have none : first.find? (·.key == key) = none := List.find?_eq_none.2 fun b hb => mt beq_iff_eq.1 (hf b hb)
  have found : (a :: more).find? (·.key == key) = some a := List.find?_cons_of_pos (beq_iff_eq.2 ha)
  rw [Tag.attributeValue?, Tag.attribute?, findAttribute?, h, List.find?_append, none, Option.none_or, found]
  rfl

end

theorem Tag.alike_filled (t : Tag) (value : String) : t.Alike (t.filled value) :=
  ⟨t.leading_filled value, t.name_filled value, fun sound => sound.filled value⟩

theorem Tag.head_filled (t : Tag) (value : String) : (t.filled value).head = t.head := by
  obtain ⟨items, c, h, -⟩ := t.filled_eq_withBody value
  rw [h]
  rfl

theorem Tag.depth_with_attributes (t : Tag) (attributes : List Attribute) : { t with attributes }.depth = t.depth := by
  cases t
  rfl

theorem Tag.alike_withValue {t : Tag} {first more : List Attribute} {a : Attribute}
    (h : t.attributes = first ++ a :: more)
    (value : String) : t.Alike { t with attributes := first ++ a.withValue value :: more } := by
  refine ⟨rfl, rfl, fun sound => ⟨sound.leading, sound.markers, sound.name, fun b hb => ?_, sound.beforeClose,
    sound.body⟩⟩
  have old := sound.attributes
  rw [h] at old
  obtain hb | hb := List.mem_append.1 hb
  · exact old b (List.mem_append_left _ hb)
  · obtain rfl | hb := List.mem_cons.1 hb
    · obtain ⟨normal, apart⟩ := old a (List.mem_append_right _ List.mem_cons_self)
      exact ⟨normal.withValue value, apart⟩
    · exact old b (List.mem_append_right _ (List.mem_cons_of_mem _ hb))

theorem Tag.head_withValue {t : Tag} {first more : List Attribute} {a : Attribute}
    (h : t.attributes = first ++ a :: more)
    (value : String) : { t with attributes := first ++ a.withValue value :: more }.head = t.head := by
  rw [Tag.head, Tag.head, h, List.map_append, List.map_append]
  rfl

/-- Whatever ids are given out, the text is read as a document with the elements of `d` at the addresses that are
`kept`, by their heads, and with the value at the address. -/
def ReadsBack (path : FilePath) (text : String) (d : Document) (kept : List Nat → Prop) (address : List Nat)
    (read : Tag → Option String) (value : String) : Prop :=
  ∀ ids, ∃ d' ids', (Document.parse path text).run.run ids = (.ok d', ids') ∧
    (∀ a, kept a → (d'.root.at? a).map Tag.head = (d.root.at? a).map Tag.head) ∧
      (d'.root.at? address).bind read = some value

theorem Tag.bind_at?_congr {α : Type} {f : Tag → Option α} (hf : ∀ t : Tag, f t.anonymous = f t) {t u : Tag}
    (h : t.anonymous = u.anonymous) (a : List Nat) : (t.at? a).bind f = (u.at? a).bind f := by
  have through (t : Tag) : (t.at? a).bind f = (t.anonymous.at? a).bind f := by
    rw [Tag.at?_anonymous]
    cases t.at? a with
    | none => rfl
    | some v => exact (hf v).symm
  rw [through t, h, ← through u]

theorem Tag.map_at?_congr {α : Type} {f : Tag → α} (hf : ∀ t : Tag, f t.anonymous = f t) {t u : Tag}
    (h : t.anonymous = u.anonymous) (a : List Nat) : (t.at? a).map f = (u.at? a).map f := by
  have hs (t : Tag) : some (f t.anonymous) = some (f t) := congrArg some (hf t)
  rw [Option.map_eq_bind, Option.map_eq_bind]
  exact Tag.bind_at?_congr hs h a

theorem Tag.attributeValue?_anonymous (key : String) (t : Tag) :
    t.anonymous.attributeValue? key = t.attributeValue? key := by
  obtain ⟨id, leading, markers, name, attributes, content, closing, beforeClose⟩ := t
  change ((attributes.map Attribute.anonymous).find? (·.key == key)).map Attribute.value =
    (attributes.find? (·.key == key)).map Attribute.value
  rw [List.find?_map, Option.map_map]
  rfl

section

variable {d : Document} {old new root : Tag} {address : List Nat}

theorem Document.Readable.readsBack (hd : d.Readable) (h : Tag.Swap old new address d.root root) (same : old.Alike new)
    (le : new.depth ≤ old.depth)
    (inside : ∀ e ∈ Content.elementsBody new.content, e ∈ Content.elementsBody d.root.content)
    {kept : List Nat → Prop}
    (heads : ∀ more, kept (address ++ more) → (new.at? more).map Tag.head = (old.at? more).map Tag.head)
    {read : Tag → Option String} (hr : ∀ t : Tag, read t.anonymous = read t) {value : String}
    (hv : read new = some value) :
    ReadsBack d.path { d with root }.print d kept address read value := by
  intro ids
  obtain ⟨d', ids', parsed, e⟩ := parse_print_of_readable (hd.swap h same le inside) ids
  have roots : d'.root.anonymous = root.anonymous := congrArg Document.root e
  refine ⟨d', ids', parsed, fun a ha => ?_, ?_⟩
  · rw [Tag.map_at?_congr Tag.head_anonymous roots]
    by_cases ext : address <+: a
    · obtain ⟨more, rfl⟩ := ext
      obtain ⟨before, after⟩ := h.at?_append more
      rw [before, after]
      exact heads more ha
    · exact h.head_at? ext
  · have here := (h.at?_append []).2
    rw [List.append_nil] at here
    rw [Tag.bind_at?_congr hr roots, here]
    exact hv

end

/-- What becomes of a document in which the element `t` at an address is given a value. The elements inside `t` go. -/
structure Document.ValueGiven (d : Document) (source : String) (address : List Nat) (t : Tag) (value : String)
    (edited : Document) : Prop where
  before : source = d.textBefore address ++ t.opening ++ t.body ++ d.textBehind address
  after : edited.print = d.textBefore address ++ t.opening ++ t.bodyOf (escapeText value) ++ d.textBehind address
  here : (edited.root.at? address).bind Tag.value? = some (Text.trim value)
  again : ReadsBack d.path edited.print d (fun a => address <+: a → a = address) address Tag.value? (Text.trim value)

/-- What becomes of it if the first attribute of `t` with a key is. -/
structure Document.AttributeGiven (d : Document) (source : String) (address : List Nat) (t : Tag) (key value : String)
    (edited : Document) : Prop where
  text : ∃ first a more, t.attributes = first ++ a :: more ∧ a.key = key ∧ (∀ b ∈ first, b.key ≠ key) ∧
    source = d.textBefore address ++ t.textBeforeValue first a ++ a.rawValue ++ t.textBehindValue a more ++
      d.textBehind address ∧
    edited.print = d.textBefore address ++ t.textBeforeValue first a ++ escapeAttribute a.quote value ++
      t.textBehindValue a more ++ d.textBehind address
  here : (edited.root.at? address).bind (·.attributeValue? key) = some value
  again : ReadsBack d.path edited.print d (fun _ => True) address (·.attributeValue? key) value

section

variable {d : Document} {t : Tag} {address : List Nat}

theorem Document.run_put {new root : Tag} {s : Supply} (h : (d.root.put new address).run s = (root, s)) :
    (d.put new address).run s = ({ d with root }, s) := by
  rw [Document.put, StateT.run_bind, h]
  rfl

theorem Tag.Swap.bind_at? {old new t t' : Tag} (h : Tag.Swap old new address t t') {α : Type} (read : Tag → Option α) :
    (t'.at? address).bind read = read new := by
  have here := (h.at?_append []).2
  rw [List.append_nil] at here
  rw [here]
  rfl

theorem Document.Readable.valueGiven (hd : d.Readable) (ht : d.root.at? address = some t) (value : String)
    (s : Supply) :
    d.ValueGiven d.print address t value ((t.withValue value >>= fun new => d.put new address).run s).1 := by
  obtain ⟨root, made, run⟩ := Tag.exists_swap hd.elements ht ((t.withValue value).run s).1
  -- the text is read as that of the document with this element
  obtain ⟨root', read, -⟩ := Tag.exists_swap hd.elements ht (t.filled value)
  have sound : t.Sound := hd.elements t (made.elements_subset t.mem_elements_self)
  obtain ⟨before, edited⟩ := Document.print_swap made
  obtain ⟨-, filled⟩ := Document.print_swap read
  have same : { d with root }.print = { d with root := root' }.print := by rw [edited, filled, print_withValue]
  have put : ((t.withValue value >>= fun new => d.put new address).run s).1 = { d with root } :=
    congrArg Prod.fst (Document.run_put (run ((t.withValue value).run s).2))
  rw [put]
  refine ⟨?before, ?after, ?here, ?again⟩
  case before => rw [before, t.print_eq, ← String.append_assoc]
  case after => rw [edited, sound.print_withValue, ← String.append_assoc]
  case here => exact (made.bind_at? Tag.value?).trans (value?_withValue t value s)
  case again =>
    rw [same]
    refine hd.readsBack read (t.alike_filled value) (t.depth_filled_le value) (fun e he => ?_) (fun more kept => ?_)
      Tag.value?_anonymous (sound.value?_filled value)
    · rw [t.elementsBody_filled] at he
      cases he
    · obtain rfl : more = [] := List.append_right_eq_self.1 (kept (List.prefix_append address more))
      exact congrArg some (t.head_filled value)

theorem Document.Readable.attributeGiven (hd : d.Readable) (ht : d.root.at? address = some t) {key : String}
    (hk : key ∈ t.attributes.map (·.key)) (value : String) (s : Supply) :
    ∃ new, t.withAttributeValue? key value = some new ∧
      d.AttributeGiven d.print address t key value ((d.put new address).run s).1 := by
  obtain ⟨first, a, more, split, ha, hf⟩ := Tag.exists_first hk
  let attributes := first ++ a.withValue value :: more
  obtain ⟨root, made, run⟩ := Tag.exists_swap hd.elements ht { t with attributes }
  obtain ⟨before, edited⟩ := Document.print_swap made
  have read : Tag.attributeValue? { t with attributes } key = some value := by
    have found := Tag.attributeValue?_append (t := { t with attributes }) (a := a.withValue value) rfl ha hf
    exact found.trans (congrArg some (unescape_escapeAttribute a.quote value))
  refine ⟨{ t with attributes }, ?given, ?becomes⟩
  case given =>
    rw [Tag.withAttributeValue?, split, withAttributeValue?_go ha hf]
    rfl
  case becomes =>
    rw [Document.run_put (run s)]
    refine ⟨⟨first, a, more, split, ha, hf, ?_, ?_⟩, ?here, ?again⟩
    · rw [before, Tag.print_eq_of_attributes split]
      simp only [String.append_assoc]
    · rw [edited, Tag.print_eq_of_attributes (t := { t with attributes }) rfl]
      simp only [String.append_assoc]
      rfl
    case here => exact (made.bind_at? (·.attributeValue? key)).trans read
    case again =>
      refine hd.readsBack made (Tag.alike_withValue split value) (Nat.le_of_eq (t.depth_with_attributes attributes))
        (fun e he => made.elementsBody_subset he) (fun inner _ => ?_) (Tag.attributeValue?_anonymous key) read
      cases inner with
      | nil => exact congrArg some (Tag.head_withValue split value)
      | cons i rest => rfl

end

theorem edits_stay_local {path : FilePath} {source : String} {ids ids' : Supply} {d : Document}
    (parsed : (Document.parse path source).run.run ids = (.ok d, ids')) {address : List Nat} {t : Tag}
    (ht : d.root.at? address = some t) (value : String) (s : Supply) :
    d.ValueGiven source address t value ((t.withValue value >>= fun new => d.put new address).run s).1 ∧
      ∀ key ∈ t.attributes.map (·.key), ∃ new, t.withAttributeValue? key value = some new ∧
        d.AttributeGiven source address t key value ((d.put new address).run s).1 := by
  obtain ⟨readable, -⟩ := readable_of_parse parsed
  rw [← print_of_parse parsed]
  exact ⟨readable.valueGiven ht value s, fun key hk => readable.attributeGiven ht hk value s⟩

/-- An element with an attribute between single quotes, and blanks in front of its closing tag. -/
def spacedText : String := "<a>\n  <v x = '1' y=\"\"> 1<e/> </v >\n</a>"

theorem edits_stay_local_spacedText :
    ∃ d ids t, (Document.parse ⟨"a.xml"⟩ spacedText).run.run {} = (.ok d, ids) ∧ d.root.at? [0] = some t ∧
      t.head = ("v", ["x", "y"]) ∧
      d.ValueGiven spacedText [0] t " it's <b> " ((t.withValue " it's <b> " >>= fun new => d.put new [0]).run ids).1 ∧
      ∃ new, t.withAttributeValue? "x" " it's <b> " = some new ∧
        d.AttributeGiven spacedText [0] t "x" " it's <b> " ((d.put new [0]).run ids).1 := by
  have read : ((Document.parse ⟨"a.xml"⟩ spacedText).run.run {}).1.toBool = true := by decide +kernel
  have found : (((Document.parse ⟨"a.xml"⟩ spacedText).run.run {}).1.toOption.bind (·.root.at? [0])).map Tag.head =
      some ("v", ["x", "y"]) := by decide +kernel
  obtain ⟨d, hd⟩ := exists_eq_ok_of_toBool read
  rw [hd] at found
  obtain ⟨t, ht, head⟩ := Option.map_eq_some_iff.1 found
  have keys : t.attributes.map (·.key) = ["x", "y"] := congrArg Prod.snd head
  obtain ⟨value, attributes⟩ := edits_stay_local hd ht " it's <b> " _
  exact ⟨d, _, t, hd, ht, head, value, attributes "x" (by rw [keys]; exact List.mem_cons_self)⟩

end Emend.Markup
