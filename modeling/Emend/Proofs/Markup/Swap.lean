import Emend.Markup.Address
import Emend.Proofs.Markup.Parsed

/-! # Another element at an address

A tree that gets another element at an address prints the same text in front of that element and behind it. The
elements that the address does not lead through or into are those there were.
-/

namespace Emend.Markup

def Tag.opening (t : Tag) : String := t.leading ++ "<" ++ t.name ++ printAttributes t.attributes ++ t.beforeClose

def Tag.textBefore (t : Tag) : (address : List Nat) → String
  | [] => ""
  | i :: rest => t.opening ++ ">" ++ Content.printAll (t.items.take i) ++
    match t.items[i]? with
    | some (.tag child) => child.textBefore rest
    | _ => ""

def Tag.textBehind (t : Tag) : (address : List Nat) → String
  | [] => ""
  | i :: rest => (match t.items[i]? with
    | some (.tag child) => child.textBehind rest
    | _ => "") ++ Content.printAll (t.items.drop (i + 1)) ++ (t.closing.map Closing.print).getD ""

def Document.textBefore (d : Document) (address : List Nat) : String :=
  (if d.bom then bomChar.toString else "") ++ d.prolog.print ++ d.root.textBefore address

def Document.textBehind (d : Document) (address : List Nat) : String :=
  d.root.textBehind address ++ printMisc d.epilog ++ d.eof

def Tag.head (t : Tag) : String × List String := (t.name, t.attributes.map (·.key))

theorem Tag.print_withBody (t : Tag) (items : List Content) (c : Closing) :
    (t.withBody items c).print = t.opening ++ ">" ++ Content.printAll items ++ c.print := by
  rw [Tag.withBody, Tag.print, Tag.opening]
  simp only [String.append_assoc]

theorem Tag.at?_cons (t : Tag) (i : Nat) (rest : List Nat) :
    t.at? (i :: rest) = (t.items[i]?.bind Content.tag?).bind (·.at? rest) := by
  rw [Tag.at?]
  cases t.items[i]? with
  | none => rfl
  | some c => cases c <;> rfl

theorem Tag.items_anonymous (t : Tag) : t.anonymous.items = t.items.map Content.anonymous := by
  obtain ⟨id, leading, markers, name, attributes, content, closing, beforeClose⟩ := t
  cases content with
  | none => rfl
  | some items => exact Content.anonymousAll_eq_map items

theorem Content.tag?_anonymous (c : Content) : c.anonymous.tag? = c.tag?.map Tag.anonymous := by
  cases c <;> rfl

theorem Tag.at?_anonymous (t : Tag) (address : List Nat) :
    t.anonymous.at? address = (t.at? address).map Tag.anonymous := by
  induction address generalizing t with
  | nil => rfl
  | cons i rest ih =>
    rw [Tag.at?_cons, Tag.at?_cons, Tag.items_anonymous, List.getElem?_map]
    cases t.items[i]? with
    | none => rfl
    | some c =>
      rw [Option.map_some, Option.bind_some, Option.bind_some, Content.tag?_anonymous]
      cases c.tag? with
      | none => rfl
      | some child => exact ih child

theorem Tag.head_anonymous (t : Tag) : t.anonymous.head = t.head := by
  obtain ⟨id, leading, markers, name, attributes, content, closing, beforeClose⟩ := t
  exact congrArg (Prod.mk name) List.map_map

section

variable {around child : Tag} {before after : List Content} {closing : Closing} {rest : List Nat}

theorem Tag.at?_inside :
    (around.withBody (before ++ .tag child :: after) closing).at? (before.length :: rest) = child.at? rest := by
  have found : (before ++ .tag child :: after)[before.length]? = some (.tag child) := by simp
  rw [Tag.at?_cons, show Tag.items (around.withBody _ closing) = before ++ .tag child :: after from rfl, found]
  rfl

theorem Tag.at?_beside {other : Tag} {i : Nat} (h : i ≠ before.length) :
    (around.withBody (before ++ .tag other :: after) closing).at? (i :: rest) =
      (around.withBody (before ++ .tag child :: after) closing).at? (i :: rest) := by
  have same : (before ++ .tag other :: after)[i]? = (before ++ .tag child :: after)[i]? := by
    have set : before ++ .tag other :: after = (before ++ .tag child :: after).set before.length (.tag other) := by simp
    rw [set, List.getElem?_set_ne h.symm]
  rw [Tag.at?_cons, Tag.at?_cons]
  exact congrArg (fun item => (Option.bind item Content.tag?).bind (·.at? rest)) same

theorem Tag.textBefore_inside :
    (around.withBody (before ++ .tag child :: after) closing).textBefore (before.length :: rest) =
      around.opening ++ ">" ++ Content.printAll before ++ child.textBefore rest := by
  have items : (around.withBody (before ++ .tag child :: after) closing).items = before ++ .tag child :: after := rfl
  have opening : (around.withBody (before ++ .tag child :: after) closing).opening = around.opening := rfl
  simp [Tag.textBefore, items, opening]

theorem Tag.textBehind_inside :
    (around.withBody (before ++ .tag child :: after) closing).textBehind (before.length :: rest) =
      child.textBehind rest ++ Content.printAll after ++ closing.print := by
  have items : (around.withBody (before ++ .tag child :: after) closing).items = before ++ .tag child :: after := rfl
  have closing : (around.withBody (before ++ .tag child :: after) closing).closing = some closing := rfl
  simp [Tag.textBehind, items, closing]

theorem Tag.print_inside :
    (around.withBody (before ++ .tag child :: after) closing).print =
      around.opening ++ ">" ++ Content.printAll before ++ child.print ++ Content.printAll after ++ closing.print := by
  rw [Tag.print_withBody, Content.printAll_append, Content.printAll, Content.print]
  simp only [String.append_assoc]

theorem Tag.put_inside {new child' : Tag} {s : Supply} (h : (child.put new rest).run s = (child', s)) :
    ((around.withBody (before ++ .tag child :: after) closing).put new (before.length :: rest)).run s =
      (around.withBody (before ++ .tag child' :: after) closing, s) := by
  have items : (around.withBody (before ++ .tag child :: after) closing).items = before ++ .tag child :: after := rfl
  have found : (before ++ .tag child :: after)[before.length]? = some (.tag child) := by simp
  have set : (before ++ .tag child :: after).set before.length (.tag child') = before ++ .tag child' :: after := by simp
  rw [Tag.put, items, found]
  dsimp only
  rw [StateT.run_bind, h, ← set]
  rfl

end

/-- The one tree has `old` at the address and the other `new`; elsewhere they are the same. -/
inductive Tag.Swap (old new : Tag) : List Nat → Tag → Tag → Prop
  | here : Swap old new [] old new
  | inside (around : Tag) (before after : List Content) (closing : Closing) {rest : List Nat} {child child' : Tag} :
      Swap old new rest child child' →
      Swap old new (before.length :: rest) (around.withBody (before ++ .tag child :: after) closing)
        (around.withBody (before ++ .tag child' :: after) closing)

theorem exists_append_of_getElem? {α : Type} {xs : List α} {i : Nat} {x : α} (h : xs[i]? = some x) :
    ∃ before after, xs = before ++ x :: after ∧ before.length = i := by
  obtain ⟨hi, rfl⟩ := List.getElem?_eq_some_iff.1 h
  refine ⟨xs.take i, xs.drop (i + 1), ?_, List.length_take_of_le (Nat.le_of_lt hi)⟩
  rw [← List.drop_eq_getElem_cons hi, List.take_append_drop]

/-- The way into an element, which has a closing tag then. -/
theorem Tag.exists_inside {t old : Tag} {i : Nat} {rest : List Nat} (ht : t.Sound) (h : t.at? (i :: rest) = some old) :
    ∃ before child after closing, t = t.withBody (before ++ .tag child :: after) closing ∧ i = before.length ∧
      child.at? rest = some old := by
  rw [Tag.at?_cons] at h
  obtain ⟨child, hchild, inside⟩ := Option.bind_eq_some_iff.1 h
  obtain ⟨item, hi, hc⟩ := Option.bind_eq_some_iff.1 hchild
  obtain rfl : item = .tag child := by
    cases item with
    | tag u => exact congrArg Content.tag (Option.some.inj hc)
    | charData _ | comment _ | instruction _ => cases hc
  obtain ⟨before, after, split, length⟩ := exists_append_of_getElem? hi
  obtain ⟨id, leading, markers, name, attributes, content, closing, beforeClose⟩ := t
  have body := ht.body
  cases content with
  | none => exact absurd split.symm (List.append_ne_nil_of_right_ne_nil _ (List.cons_ne_nil _ _))
  | some items =>
    obtain rfl : items = before ++ .tag child :: after := split
    cases closing with
    | none => exact body.elim
    | some closing => exact ⟨before, child, after, closing, rfl, length.symm, inside⟩

theorem Tag.exists_swap {t old : Tag} {address : List Nat} (ht : ∀ e ∈ t.elements, e.Sound)
    (h : t.at? address = some old) (new : Tag) :
    ∃ t', Tag.Swap old new address t t' ∧ ∀ s, (t.put new address).run s = (t', s) := by
  induction address generalizing t with
  | nil =>
    cases h
    exact ⟨new, .here, fun s => rfl⟩
  | cons i rest ih =>
    obtain ⟨before, child, after, closing, shape, rfl, inside⟩ :=
      Tag.exists_inside (ht t t.mem_elements_self) h
    rw [shape] at ht ⊢
    obtain ⟨child', swap, run⟩ := ih (fun e he => ht e (Tag.mem_elements_iff.2 (.inr ⟨_, rfl,
      Content.mem_elementsAll_iff.2 ⟨_, List.mem_append_right _ List.mem_cons_self, he⟩⟩))) inside
    exact ⟨_, .inside t before after closing swap, fun s => Tag.put_inside (run s)⟩

namespace Tag.Swap

variable {old new t t' : Tag} {address : List Nat}

theorem print (h : Swap old new address t t') :
    t.print = t.textBefore address ++ old.print ++ t.textBehind address ∧
      t'.print = t.textBefore address ++ new.print ++ t.textBehind address := by
  induction h with
  | here => simp [Tag.textBefore, Tag.textBehind]
  | inside around before after closing _ ih =>
    obtain ⟨ih, ih'⟩ := ih
    rw [Tag.textBefore_inside, Tag.textBehind_inside, Tag.print_inside, Tag.print_inside, ih, ih']
    simp only [String.append_assoc, and_self]

/-- Inside the elements that were exchanged. -/
theorem at?_append (h : Swap old new address t t') (more : List Nat) :
    t.at? (address ++ more) = old.at? more ∧ t'.at? (address ++ more) = new.at? more := by
  induction h with
  | here => exact ⟨rfl, rfl⟩
  | inside around before after closing _ ih =>
    rw [List.cons_append, Tag.at?_inside, Tag.at?_inside]
    exact ih

/-- An element around those that were exchanged may hold other items, but its start is the same. -/
theorem head_at? (h : Swap old new address t t') {a : List Nat} (outside : ¬address <+: a) :
    (t'.at? a).map Tag.head = (t.at? a).map Tag.head := by
  induction h generalizing a with
  | here => exact absurd List.nil_prefix outside
  | inside around before after closing _ ih =>
    cases a with
    | nil => rfl
    | cons i rest =>
      by_cases hi : i = before.length
      · subst hi
        rw [Tag.at?_inside, Tag.at?_inside]
        exact ih fun h => outside (List.cons_prefix_cons.2 ⟨rfl, h⟩)
      · rw [Tag.at?_beside hi]

theorem elements_subset (h : Swap old new address t t') : old.elements ⊆ t.elements := by
  induction h with
  | here => exact List.Subset.refl _
  | inside around before after closing _ ih =>
    intro e he
    exact Tag.mem_elements_iff.2 (.inr ⟨_, rfl, Content.mem_elementsAll_iff.2
      ⟨_, List.mem_append_right _ List.mem_cons_self, ih he⟩⟩)

theorem elementsBody_subset (h : Swap old new address t t') :
    Content.elementsBody old.content ⊆ Content.elementsBody t.content := by
  cases h with
  | here => exact List.Subset.refl _
  | inside around before after closing inner =>
    intro e he
    have below := inner.elements_subset (Tag.mem_elements_iff.2 (.inr (Content.mem_elementsBody_iff.1 he)))
    exact Content.mem_elementsAll_iff.2 ⟨_, List.mem_append_right _ List.mem_cons_self, below⟩

end Tag.Swap

theorem Content.mem_elementsAll_inside {before after : List Content} {child e : Tag} :
    e ∈ Content.elementsAll (before ++ .tag child :: after) ↔
      e ∈ Content.elementsAll (before ++ after) ∨ e = child ∨ e ∈ Content.elementsBody child.content := by
  rw [Content.elementsAll_append, Content.elementsAll_append, Content.elementsAll, Content.elements, List.mem_append,
    List.mem_append, List.mem_append, Tag.mem_elements_iff, ← Content.mem_elementsBody_iff]
  tauto

/-- What an element around the two, or one of the two, has to keep for the tree to stay readable. -/
structure Tag.Alike (t t' : Tag) : Prop where
  leading : t'.leading = t.leading
  name : t'.name = t.name
  sound : t.Sound → t'.Sound

theorem Tag.Alike.refl (t : Tag) : t.Alike t := ⟨rfl, rfl, fun sound => sound⟩

theorem Tag.Alike.inside {child child' : Tag} (h : child.Alike child') (around : Tag) (before after : List Content)
    (closing : Closing) :
    (around.withBody (before ++ .tag child :: after) closing).Alike
      (around.withBody (before ++ .tag child' :: after) closing) := by
  refine ⟨rfl, rfl, fun sound => ⟨sound.leading, sound.markers, sound.name, sound.attributes, sound.beforeClose, ?_⟩⟩
  obtain ⟨leaves, separated, closing⟩ := sound.body
  refine ⟨fun c hc => ?_, (separated_congr ?_).1 separated, closing⟩
  · obtain hc | hc := List.mem_append.1 hc
    · exact leaves c (List.mem_append_left _ hc)
    · obtain rfl | hc := List.mem_cons.1 hc
      · trivial
      · exact leaves c (List.mem_append_right _ (List.mem_cons_of_mem _ hc))
  · have same : (Content.tag child').leading = (Content.tag child).leading := h.leading
    rw [List.map_append, List.map_append, List.map_cons, List.map_cons, same]
    rfl

namespace Tag.Swap

variable {old new t t' : Tag} {address : List Nat}

theorem alike (h : Swap old new address t t') (same : old.Alike new) : t.Alike t' := by
  induction h with
  | here => exact same
  | inside around before after closing _ ih => exact ih.inside around before after closing

/-- The elements inside are those inside the new one, and those there were, perhaps with other items. -/
theorem mem_elementsBody (h : Swap old new address t t') (same : old.Alike new) {e : Tag}
    (he : e ∈ Content.elementsBody t'.content) :
    e ∈ Content.elementsBody new.content ∨ ∃ u ∈ Content.elementsBody t.content, u.Alike e := by
  induction h with
  | here => exact .inl he
  | inside around before after closing swap ih =>
    obtain he | rfl | he := Content.mem_elementsAll_inside.1 he
    · exact .inr ⟨e, Content.mem_elementsAll_inside.2 (.inl he), .refl e⟩
    · exact .inr ⟨_, Content.mem_elementsAll_inside.2 (.inr (.inl rfl)), swap.alike same⟩
    · obtain he | ⟨u, hu, hue⟩ := ih he
      · exact .inl he
      · exact .inr ⟨u, Content.mem_elementsAll_inside.2 (.inr (.inr hu)), hue⟩

theorem depth_le (h : Swap old new address t t') (le : new.depth ≤ old.depth) : t'.depth ≤ t.depth := by
  induction h with
  | here => exact le
  | inside around before after closing _ ih =>
    rw [Tag.withBody, Tag.withBody, Tag.depth, Tag.depth, Content.depthBody, Content.depthBody,
      Content.depthAll_append, Content.depthAll_append, Content.depthAll, Content.depthAll, Content.depth,
      Content.depth]
    omega

end Tag.Swap

theorem Document.print_swap {d : Document} {old new root : Tag} {address : List Nat}
    (h : Tag.Swap old new address d.root root) :
    d.print = d.textBefore address ++ old.print ++ d.textBehind address ∧
      { d with root }.print = d.textBefore address ++ new.print ++ d.textBehind address := by
  obtain ⟨before, after⟩ := h.print
  rw [Document.print, Document.print, before, after, Document.textBefore, Document.textBehind]
  simp only [String.append_assoc, and_self]

theorem Document.Readable.swap {d : Document} {old new root : Tag} {address : List Nat} (hd : d.Readable)
    (h : Tag.Swap old new address d.root root) (same : old.Alike new) (le : new.depth ≤ old.depth)
    (inside : ∀ e ∈ Content.elementsBody new.content, e ∈ Content.elementsBody d.root.content) :
    { d with root }.Readable := by
  have alike := h.alike same
  -- each element inside was there, or has the name of one that was there
  have back {e : Tag} (he : e ∈ Content.elementsBody root.content) :
      ∃ u ∈ Content.elementsBody d.root.content, u.Alike e := by
    obtain he | he := h.mem_elementsBody same he
    · exact ⟨e, inside e he, .refl e⟩
    · exact he
  refine ⟨hd.kind, hd.markers, hd.declaration, hd.misc, hd.first, ?elements, ?inner, ?noComment, ?noDocType,
    Nat.le_trans (h.depth_le le) hd.depth, hd.epilog, hd.eof⟩
  case elements =>
    intro e he
    obtain rfl | he := Tag.mem_elements_iff.1 he
    · exact alike.sound (hd.elements _ d.root.mem_elements_self)
    · obtain ⟨u, hu, hue⟩ := back (Content.mem_elementsBody_iff.2 he)
      exact hue.sound (hd.elements u (Tag.mem_elements_iff.2 (.inr (Content.mem_elementsBody_iff.1 hu))))
  case inner =>
    intro e he
    obtain ⟨u, hu, hue⟩ := back he
    rw [hue.name]
    exact hd.inner u hu
  case noComment =>
    rw [alike.name]
    exact hd.noComment
  case noDocType =>
    rw [alike.name]
    exact hd.noDocType

end Emend.Markup
