import Emend.Markup.Print
import Emend.Proofs.Markup.Made
import Emend.Proofs.Addressing
import Mathlib.Logic.Relation

/-! # Nodes by address

A node prints as texts of its own with the nodes it holds between them. So every node of a tree has an address, the
index among the nodes held at each level on the way down, and a text that is printed in front of it. The order of
addresses, in which a node comes before those it holds, is the order in which the nodes begin (`Sighting.starts_le`).
-/

namespace Emend.Markup

/-- A text of a node's own, or a node that it holds, which may not show. -/
inductive Fragment where
  | own (text : String)
  | part (node : Node) (shown : Bool)

def Fragment.node? : Fragment → Option Node
  | own _ => none
  | part n _ => some n

@[simp] theorem Fragment.node?_own (text : String) : (own text).node? = none := rfl
@[simp] theorem Fragment.node?_part (n : Node) (shown : Bool) : (part n shown).node? = some n := rfl

@[simp] theorem Fragment.filterMap_node?_part {α : Type} (f : α → Node) (shown : Bool) (as : List α) :
    as.filterMap (node? ∘ fun a => part (f a) shown) = as.map f := congrFun (List.filterMap_eq_map (f := f)) as

/-- An element in pieces. Content without a closing tag does not show. -/
def Tag.fragments (t : Tag) : List Fragment :=
  .own (t.leading ++ "<" ++ t.name) :: (t.attributes.map fun a => .part (.attr a) true) ++
    match t.content, t.closing with
    | some items, some c => .own (t.beforeClose ++ ">") :: (items.map fun c => .part c.node true) ++ [.own c.print]
    | _, _ => .own (t.beforeClose ++ "/>") :: t.items.map fun c => .part c.node false

namespace Node

def print : Node → String
  | attr a => a.print
  | charData d => d.print
  | comment c => c.print
  | instruction i => i.print
  | docType d => d.print
  | tag t => t.print
  | declaration x => x.print
  | prolog p => p.print
  | document d => d.print

def fragments : Node → List Fragment
  | attr a => [.own a.print]
  | charData d => [.own d.print]
  | comment c => [.own c.print]
  | instruction i => [.own i.print]
  | docType d => [.own d.print]
  | tag t => t.fragments
  | declaration x =>
    .own (x.leading ++ "<?xml") :: (x.attributes.map fun a => .part (.attr a) true) ++ [.own (x.beforeClose ++ "?>")]
  | prolog p => (p.declaration.toList.map fun x => .part (.declaration x) true) ++ p.misc.map fun m => .part m.node true
  | document d =>
    .own (if d.bom then bomChar.toString else "") :: .part (.prolog d.prolog) true :: .part (.tag d.root) true ::
      (d.epilog.map fun m => .part m.node true) ++ [.own d.eof]

def parts (n : Node) : List Node := n.fragments.filterMap Fragment.node?

def names : Node → List String
  | tag t => [t.name]
  | _ => []

end Node

/-- A node, and the names of the elements around it, outermost first. -/
structure Sighting where
  node : Node
  ancestors : List String

namespace Sighting

def parts (x : Sighting) : List Sighting := x.node.parts.map fun n => ⟨n, x.ancestors ++ x.node.names⟩

/-- What stands at an address, seen from `x`. -/
abbrev at? (x : Sighting) (address : List Nat) : Option Sighting := Addressing.at? parts x address

end Sighting

namespace Fragment

def print : Fragment → String
  | own text => text
  | part n shown => if shown then n.print else ""

def printAll : List Fragment → String
  | [] => ""
  | f :: fs => f.print ++ printAll fs

def front : List Fragment → Nat → String
  | [], _ => ""
  | own text :: fs, i => text ++ front fs i
  | part _ _ :: _, 0 => ""
  | part n shown :: fs, i + 1 => (part n shown).print ++ front fs i

def shows : List Fragment → Nat → Bool
  | [], _ => false
  | own _ :: fs, i => shows fs i
  | part _ shown :: _, 0 => shown
  | part _ _ :: fs, i + 1 => shows fs i

theorem printAll_append (fs gs : List Fragment) : printAll (fs ++ gs) = printAll fs ++ printAll gs := by
  induction fs with
  | nil => rw [List.nil_append, printAll, String.empty_append]
  | cons f fs ih => rw [List.cons_append, printAll, printAll, ih, String.append_assoc]

theorem printAll_part {α : Type} (f : α → Node) (as : List α) :
    printAll (as.map fun a => part (f a) true) = String.join (as.map fun a => (f a).print) := by
  induction as with
  | nil => rfl
  | cons a as ih =>
    rw [List.map_cons, printAll, ih, List.map_cons, String.join_cons]
    rfl

theorem printAll_hidden {α : Type} (f : α → Node) (as : List α) : printAll (as.map fun a => part (f a) false) = "" := by
  induction as with
  | nil => rfl
  | cons a as ih =>
    rw [List.map_cons, printAll, ih]
    rfl

/-- A part prints behind its front, or does not print. -/
theorem exists_behind {fs : List Fragment} {i : Nat} {n : Node} (h : (fs.filterMap node?)[i]? = some n) :
    ∃ behind, printAll fs = front fs i ++ (part n (shows fs i)).print ++ behind := by
  induction fs generalizing i with
  | nil => cases h
  | cons f fs ih =>
    cases f with
    | own text =>
      obtain ⟨behind, e⟩ := ih h
      exact ⟨behind, by rw [printAll, e, front, shows, print]; simp only [String.append_assoc]⟩
    | part m shown =>
      cases i with
      | zero =>
        cases h
        exact ⟨printAll fs, by rw [printAll, front, shows, String.empty_append]⟩
      | succ i =>
        obtain ⟨behind, e⟩ := ih h
        exact ⟨behind, by rw [printAll, e, front, shows]; simp only [String.append_assoc]⟩

/-- A part that prints does so within the front of every later one. -/
theorem exists_between {fs : List Fragment} {i j : Nat} {n : Node} (h : (fs.filterMap node?)[i]? = some n)
    (later : i < j) : ∃ between, front fs j = front fs i ++ (part n (shows fs i)).print ++ between := by
  induction fs generalizing i j with
  | nil => cases h
  | cons f fs ih =>
    cases f with
    | own text =>
      obtain ⟨between, e⟩ := ih h later
      exact ⟨between, by rw [front, e, front, shows]; simp only [String.append_assoc]⟩
    | part m shown =>
      obtain ⟨j, rfl⟩ := Nat.exists_eq_add_of_lt (Nat.zero_lt_of_lt later)
      rw [Nat.zero_add] at later ⊢
      cases i with
      | zero =>
        cases h
        exact ⟨front fs j, by rw [front, front, shows, String.empty_append]⟩
      | succ i =>
        obtain ⟨between, e⟩ := ih h (Nat.lt_of_succ_lt_succ later)
        exact ⟨between, by rw [front, e, front, shows]; simp only [String.append_assoc]⟩

theorem shows_of_forall {fs : List Fragment} (h : ∀ n, part n false ∉ fs) {i : Nat} {n : Node}
    (hi : (fs.filterMap node?)[i]? = some n) : shows fs i = true := by
  induction fs generalizing i with
  | nil => cases hi
  | cons f fs ih =>
    have rest : ∀ n, part n false ∉ fs := fun n hn => h n (List.mem_cons_of_mem _ hn)
    cases f with
    | own text => exact ih rest hi
    | part m shown =>
      cases i with
      | zero =>
        cases shown with
        | false => exact absurd List.mem_cons_self (h m)
        | true => rfl
      | succ i => exact ih rest hi

end Fragment

namespace Node

theorem parts_tag (t : Tag) : (tag t).parts = t.attributes.map .attr ++ t.items.map Content.node := by
  obtain ⟨_, _, _, _, attributes, content, closing, _⟩ := t
  cases content <;> cases closing <;>
    simp [parts, fragments, Tag.fragments, Tag.items, List.filterMap_cons]

theorem parts_declaration (x : Declaration) : (declaration x).parts = x.attributes.map .attr := by
  simp [parts, fragments, List.filterMap_cons]

theorem parts_prolog (p : Prolog) :
    (prolog p).parts = p.declaration.toList.map .declaration ++ p.misc.map Misc.node := by
  simp [parts, fragments]

theorem parts_document (d : Document) :
    (document d).parts = .prolog d.prolog :: .tag d.root :: d.epilog.map Misc.node := by
  simp [parts, fragments, List.filterMap_cons]

theorem partOf_of_mem_parts {n x : Node} (h : x ∈ n.parts) : PartOf x n := by
  cases n with
  | attr _ | charData _ | comment _ | instruction _ | docType _ => cases h
  | tag t =>
    rw [parts_tag, List.mem_append, List.mem_map, List.mem_map] at h
    obtain ⟨a, ha, rfl⟩ | ⟨c, hc, rfl⟩ := h
    · exact .attr ha
    · cases hi : t.content with
      | none =>
        rw [Tag.items, hi] at hc
        cases hc
      | some items =>
        rw [Tag.items, hi] at hc
        exact .item hi hc
  | declaration x =>
    rw [parts_declaration, List.mem_map] at h
    obtain ⟨a, ha, rfl⟩ := h
    exact .pseudoAttribute ha
  | prolog p =>
    rw [parts_prolog, List.mem_append, List.mem_map, List.mem_map] at h
    obtain ⟨x, hx, rfl⟩ | ⟨m, hm, rfl⟩ := h
    · exact .declaration (Option.mem_toList.1 hx)
    · exact .misc hm
  | document d =>
    rw [parts_document, List.mem_cons, List.mem_cons, List.mem_map] at h
    obtain rfl | rfl | ⟨m, hm, rfl⟩ := h
    · exact .prolog
    · exact .root
    · exact .epilog hm

theorem mem_parts_of_partOf {n x : Node} (h : PartOf x n) : x ∈ n.parts := by
  cases h with
  | @attr t a ha =>
    rw [parts_tag]
    exact List.mem_append_left _ (List.mem_map_of_mem ha)
  | @item t items c hi hc =>
    rw [parts_tag, Tag.items, hi]
    exact List.mem_append_right _ (List.mem_map_of_mem hc)
  | pseudoAttribute ha =>
    rw [parts_declaration]
    exact List.mem_map_of_mem ha
  | declaration hx =>
    rw [parts_prolog]
    exact List.mem_append_left _ (List.mem_map_of_mem (Option.mem_toList.2 hx))
  | misc hm =>
    rw [parts_prolog]
    exact List.mem_append_right _ (List.mem_map_of_mem hm)
  | prolog =>
    rw [parts_document]
    exact List.mem_cons_self
  | root =>
    rw [parts_document]
    exact List.mem_cons_of_mem _ List.mem_cons_self
  | epilog hm =>
    rw [parts_document]
    exact List.mem_cons_of_mem _ (List.mem_cons_of_mem _ (List.mem_map_of_mem hm))

theorem mem_parts_iff {n x : Node} : x ∈ n.parts ↔ PartOf x n := ⟨partOf_of_mem_parts, mem_parts_of_partOf⟩

theorem printAll_content (items : List Content) :
    Content.printAll items = Fragment.printAll (items.map fun c => .part c.node true) := by
  induction items with
  | nil => rw [Content.printAll, List.map_nil, Fragment.printAll]
  | cons c items ih =>
    rw [Content.printAll, List.map_cons, Fragment.printAll, ih]
    cases c <;> rw [Content.print] <;> rfl

theorem printAttributes_eq (as : List Attribute) :
    printAttributes as = Fragment.printAll (as.map fun a => .part (.attr a) true) :=
  (Fragment.printAll_part attr as).symm

theorem printMisc_eq (ms : List Misc) : printMisc ms = Fragment.printAll (ms.map fun m => .part m.node true) := by
  rw [Fragment.printAll_part Misc.node, printMisc]
  refine congrArg String.join (List.map_congr_left fun m _ => ?_)
  cases m <;> rfl

/-- A node prints as its pieces. -/
theorem print_eq (n : Node) : n.print = Fragment.printAll n.fragments := by
  cases n with
  | attr _ | charData _ | comment _ | instruction _ | docType _ => exact String.append_empty.symm
  | tag t =>
    obtain ⟨id, leading, markers, name, attributes, content, closing, beforeClose⟩ := t
    rw [print, Tag.print.eq_def, fragments, Tag.fragments]
    dsimp only
    rw [printAttributes_eq]
    cases content with
    | none => simp [Fragment.printAll, Fragment.printAll_append, Fragment.print, String.append_assoc, Tag.items]
    | some items =>
      cases closing with
      | none =>
        simp [Fragment.printAll, Fragment.printAll_append, Fragment.print, String.append_assoc,
          Fragment.printAll_hidden]
      | some c =>
        simp [Fragment.printAll, Fragment.printAll_append, Fragment.print, String.append_assoc, printAll_content]
  | declaration x =>
    rw [print, Declaration.print, fragments, printAttributes_eq]
    simp [Fragment.printAll, Fragment.printAll_append, Fragment.print, String.append_assoc]
  | prolog p =>
    rw [print, Prolog.print, fragments, printMisc_eq, Fragment.printAll_append]
    cases p.declaration <;> simp [Fragment.printAll, Fragment.print, print]
  | document d =>
    rw [print, Document.print, fragments, printMisc_eq]
    simp [Fragment.printAll, Fragment.printAll_append, Fragment.print, print, String.append_assoc]

/-- Nothing is hidden in an element that is not lacking a closing tag. -/
theorem part_false_not_mem {n : Node} (h : ∀ t, n = .tag t → t.content.isSome → t.closing.isSome) (m : Node) :
    .part m false ∉ n.fragments := by
  cases n with
  | tag t =>
    obtain ⟨_, _, _, _, _, content, closing, _⟩ := t
    cases content with
    | none => simp [fragments, Tag.fragments, Tag.items]
    | some items =>
      cases closing with
      | none => cases h _ rfl rfl
      | some c => simp [fragments, Tag.fragments]
  | attr _ | charData _ | comment _ | instruction _ | docType _ | declaration _ | prolog _ | document _ =>
    simp [fragments]

/-- What prints in front of what stands at an address; in front of what does not show, what prints up to there. -/
def front (n : Node) : (address : List Nat) → String
  | [] => ""
  | i :: rest =>
    Fragment.front n.fragments i ++
      if Fragment.shows n.fragments i then n.parts[i]?.elim "" (·.front rest) else ""

def Shows (n : Node) : (address : List Nat) → Prop
  | [] => True
  | i :: rest => Fragment.shows n.fragments i = true ∧ ∀ m ∈ n.parts[i]?, m.Shows rest

end Node

/-- The nodes of a tree, the node itself included. -/
abbrev Node.Within : Node → Node → Prop := Relation.ReflTransGen PartOf

namespace Sighting

variable {x y z : Sighting}

theorem parts_eq {n : Node} (h : n.names = []) (ancestors : List String) :
    parts ⟨n, ancestors⟩ = n.parts.map fun m => ⟨m, ancestors⟩ := by
  rw [parts, h, List.append_nil]

theorem at?_cons {i : Nat} {rest : List Nat} (h : x.at? (i :: rest) = some y) :
    ∃ n, x.node.parts[i]? = some n ∧ at? ⟨n, x.ancestors ++ x.node.names⟩ rest = some y := by
  rw [at?, Addressing.at?] at h
  obtain ⟨z, hz, h⟩ := Option.bind_eq_some_iff.1 h
  rw [parts, List.getElem?_map] at hz
  obtain ⟨n, hn, rfl⟩ := Option.map_eq_some_iff.1 hz
  exact ⟨n, hn, h⟩

theorem within_of_at? {a : List Nat} (h : x.at? a = some y) : y.node.Within x.node := by
  induction a generalizing x with
  | nil =>
    cases h
    exact .refl
  | cons i rest ih =>
    obtain ⟨n, hn, h⟩ := at?_cons h
    exact (ih h).tail (Node.mem_parts_iff.1 (List.mem_of_getElem? hn))

theorem exists_behind_front {a : List Nat} (h : x.at? a = some y) :
    ∃ behind, x.node.print = x.node.front a ++ behind := by
  induction a generalizing x with
  | nil => exact ⟨_, String.empty_append.symm⟩
  | cons i rest ih =>
    obtain ⟨n, hn, h⟩ := at?_cons h
    obtain ⟨behind, e⟩ := ih h
    obtain ⟨behind', e'⟩ := Fragment.exists_behind hn
    rw [Node.print_eq, e', Node.front, hn, Option.elim_some]
    cases Fragment.shows x.node.fragments i with
    | false => exact ⟨behind', by rw [Fragment.print, if_neg Bool.false_ne_true, if_neg Bool.false_ne_true]⟩
    | true =>
      rw [Fragment.print, if_pos rfl, if_pos rfl, e]
      exact ⟨behind ++ behind', by simp only [String.append_assoc]⟩

/-- What shows prints behind its front. -/
theorem exists_behind {a : List Nat} (h : x.at? a = some y) (shown : x.node.Shows a) :
    ∃ behind, x.node.print = x.node.front a ++ y.node.print ++ behind := by
  induction a generalizing x with
  | nil =>
    cases h
    exact ⟨"", by rw [Node.front, String.empty_append, String.append_empty]⟩
  | cons i rest ih =>
    obtain ⟨n, hn, h⟩ := at?_cons h
    obtain ⟨shows, below⟩ := shown
    obtain ⟨behind, e⟩ := ih h (below n hn)
    obtain ⟨behind', e'⟩ := Fragment.exists_behind hn
    rw [Node.print_eq, e', Node.front, hn, Option.elim_some, shows, Fragment.print, if_pos rfl, if_pos rfl, e]
    exact ⟨behind ++ behind', by simp only [String.append_assoc]⟩

/-- What comes first in the order of addresses does not begin later. -/
theorem starts_le {a b : List Nat} (less : a < b) (ha : x.at? a = some y) (hb : x.at? b = some z) :
    (x.node.front a).length ≤ (x.node.front b).length := by
  induction a generalizing x b with
  | nil => exact Nat.zero_le _
  | cons i rest ih =>
    cases b with
    | nil => cases less
    | cons j rest' =>
      obtain ⟨n, hn, ha⟩ := at?_cons ha
      obtain ⟨n', hn', hb⟩ := at?_cons hb
      rw [Node.front, Node.front, hn, hn', Option.elim_some, Option.elim_some]
      -- the ways part here, and the earlier part prints in front of the later one, or they go on in the same part
      obtain earlier | ⟨rfl, lower⟩ := List.cons_lt_cons_iff.1 less
      · obtain ⟨between, e⟩ := Fragment.exists_between hn earlier
        obtain ⟨behind, e'⟩ := exists_behind_front ha
        rw [e, Fragment.print, e']
        cases Fragment.shows x.node.fragments i with
        | false =>
          rw [if_neg Bool.false_ne_true, if_neg Bool.false_ne_true]
          simp only [String.length_append]
          omega
        | true =>
          rw [if_pos rfl, if_pos rfl]
          simp only [String.length_append]
          omega
      · obtain rfl := Option.some.inj (hn.symm.trans hn')
        rw [String.length_append, String.length_append]
        apply Nat.add_le_add_left
        split
        · exact ih lower ha hb
        · exact Nat.le_refl _

theorem shows_of_at? (h : ∀ t, (Node.tag t).Within x.node → t.content.isSome → t.closing.isSome) {a : List Nat}
    (ha : x.at? a = some y) : x.node.Shows a := by
  induction a generalizing x with
  | nil => trivial
  | cons i rest ih =>
    obtain ⟨n, hn, ha⟩ := at?_cons ha
    refine ⟨Fragment.shows_of_forall (Node.part_false_not_mem fun t ht => h t (ht ▸ .refl)) hn, fun m hm => ?_⟩
    obtain rfl := Option.some.inj (hn.symm.trans hm)
    exact ih (fun t ht => h t (ht.tail (Node.mem_parts_iff.1 (List.mem_of_getElem? hn)))) ha

/-- Every node of a tree stands somewhere in it. -/
theorem exists_at? {n m : Node} (h : n.Within m) (ancestors : List String) :
    ∃ a inner, at? ⟨m, ancestors⟩ a = some ⟨n, inner⟩ := by
  induction h generalizing ancestors with
  | refl => exact ⟨[], ancestors, rfl⟩
  | @tail m m' _ part ih =>
    obtain ⟨a, inner, ha⟩ := ih (ancestors ++ m'.names)
    obtain ⟨i, hi, at_i⟩ := List.getElem_of_mem (Node.mem_parts_iff.2 part)
    refine ⟨i :: a, inner, ?_⟩
    rw [at?, Addressing.at?, parts, List.getElem?_map, List.getElem?_eq_getElem hi, at_i]
    exact ha

end Sighting
end Emend.Markup
