import Emend.Proofs.Markup.Cursor
import Emend.Proofs.Markup.Outline

/-! # Every node in turn

A visitor that notes every node with the names around it and walks on sees what stands at each address of the document,
once each and in the order of the addresses (`Document.traversal`).
-/

namespace Emend

/-- A visitor may keep a state of its own beside the session. -/
instance {τ : Type} : Cancellable (ExceptT Abort (StateM (Session × τ))) where
  checkpoint := do if (← get).1.context.cancelled then throw (.error .cancelled)

namespace Markup

open Addressing (Tour Tours)

def Script.record {α : Type} (node : Node) : Script (Session × List Sighting) Abort α :=
  .step (fun place s => (s.1, s.2 ++ [⟨node, place.ancestors⟩])) fun _ _ => .walk .done

def recorder : Hooks (Session × List Sighting) Abort where
  document d := .record (.document d)
  prolog p := .record (.prolog p)
  declaration x := .record (.declaration x)
  tag t := .record (.tag t)
  attr a := .record (.attr a)
  charData d := .record (.charData d)
  comment c := .record (.comment c)
  instruction i := .record (.instruction i)
  docType d := .record (.docType d)

/-- In a session that is not cancelled, the visit changes nothing and notes a tour of `xs`. -/
def Reports {α : Type} (x : ExceptT Abort (StateM (Session × List Sighting)) (Visit α)) (xs : List Sighting) : Prop :=
  ∃ log, Tours Sighting.parts xs log ∧ ∀ s before, s.context.cancelled = false →
    x.run.run (s, before) = (.ok .unchanged, s, before ++ log)

namespace Reports

variable {α β : Type} {x : ExceptT Abort (StateM (Session × List Sighting)) (Visit α)} {xs ys : List Sighting}

theorem unchanged : Reports (pure .unchanged : ExceptT Abort (StateM (Session × List Sighting)) (Visit α)) [] :=
  ⟨[], .nil, fun s before _ => by rw [List.append_nil]; rfl⟩

theorem bind {f : Visit α → ExceptT Abort (StateM (Session × List Sighting)) (Visit β)} (hx : Reports x xs)
    (hf : Reports (f .unchanged) ys) : Reports (x >>= f) (xs ++ ys) := by
  obtain ⟨log, tours, runs⟩ := hx
  obtain ⟨log', tours', runs'⟩ := hf
  refine ⟨log ++ log', tours.append tours', fun s before hs => ?_⟩
  rw [run_bind_of_ok (runs s before hs), runs' s _ hs, List.append_assoc]

theorem last {f : Visit α → Visit β} (hx : Reports x xs) (hf : f .unchanged = .unchanged) :
    Reports (x >>= fun v => pure (f v)) xs := by
  have ends : Reports (pure (f .unchanged) : ExceptT Abort (StateM (Session × List Sighting)) (Visit β)) [] := by
    rw [hf]
    exact unchanged
  have both := hx.bind (f := fun v => pure (f v)) ends
  rwa [List.append_nil] at both

theorem checkpoint (hx : Reports x xs) : Reports (do Cancellable.checkpoint; x) xs := by
  obtain ⟨log, tours, runs⟩ := hx
  refine ⟨log, tours, fun s before hs => ?_⟩
  have passes : (Cancellable.checkpoint : ExceptT Abort (StateM (Session × List Sighting)) Unit).run.run (s, before) =
      (.ok (), s, before) := by
    change (if s.context.cancelled then throw _ else pure () : ExceptT Abort (StateM _) Unit).run.run (s, before) = _
    rw [hs]
    rfl
  rw [run_bind_of_ok passes, runs s before hs]

theorem record {place : Place} (node : Node) (h : Reports x (Sighting.parts ⟨node, place.ancestors⟩)) :
    Reports ((Script.record node).runAt place x) [⟨node, place.ancestors⟩] := by
  obtain ⟨log, tours, runs⟩ := h
  refine ⟨⟨node, place.ancestors⟩ :: log, Tours.singleton_iff.2 (.of_parts tours), fun s before hs => ?_⟩
  have notes : ((Script.record node).runAt place x).run.run (s, before) =
      x.run.run (s, before ++ [⟨node, place.ancestors⟩]) := rfl
  rw [notes, runs s _ hs, List.append_assoc, List.singleton_append]

theorem each [SameAs α] {f : α → Sighting} {g : α → ExceptT Abort (StateM (Session × List Sighting)) (Visit α)}
    (h : ∀ a, Reports (g a) [f a]) (as : List α) : Reports (Visit.each g as) (as.map f) := by
  induction as with
  | nil => exact unchanged
  | cons a as ih => exact (h a).bind (ih.last rfl)

end Reports

theorem reports_each_attr (place : Place) (as : List Attribute) :
    Reports (Visit.each (recorder.visitor.attr place) as) (as.map fun a => ⟨.attr a, place.ancestors⟩) :=
  Reports.each (fun a => .record (.attr a) .unchanged) as

theorem reports_walkMisc (place : Place) (m : Misc) :
    Reports (recorder.visitor.walkMisc place m) [⟨m.node, place.ancestors⟩] := by
  cases m with
  | comment c => exact (Reports.record (.comment c) .unchanged).last rfl
  | instruction i => exact (Reports.record (.instruction i) .unchanged).last rfl
  | docType d => exact (Reports.record (.docType d) .unchanged).last rfl

theorem reports_each_misc (place : Place) (ms : List Misc) :
    Reports (Visit.each (recorder.visitor.walkMisc place) ms) (ms.map fun m => ⟨m.node, place.ancestors⟩) :=
  Reports.each (reports_walkMisc place) ms

mutual

theorem reports_walkTag (place : Place) (t : Tag) :
    Reports (recorder.visitor.walkTag place t) (Sighting.parts ⟨.tag t, place.ancestors⟩) := by
  obtain ⟨id, leading, markers, name, attributes, content, closing, beforeClose⟩ := t
  rw [Sighting.parts, Node.parts_tag, Visitor.walkTag, List.map_append, List.map_map, List.map_map]
  refine .checkpoint ((reports_each_attr (place.enter name) attributes).bind ?_)
  cases content with
  | none => exact .unchanged
  | some items => exact (reports_walkItems (place.enter name) items).last rfl

theorem reports_walkContent (place : Place) (c : Content) :
    Reports (recorder.visitor.walkContent place c) [⟨c.node, place.ancestors⟩] := by
  cases c with
  | tag t =>
    rw [Visitor.walkContent]
    exact (Reports.record (.tag t) (reports_walkTag place t)).last rfl
  | charData d => exact (Reports.record (.charData d) .unchanged).last rfl
  | comment c => exact (Reports.record (.comment c) .unchanged).last rfl
  | instruction i => exact (Reports.record (.instruction i) .unchanged).last rfl

theorem reports_walkItems (place : Place) (items : List Content) :
    Reports (recorder.visitor.walkItems place items) (items.map fun c => ⟨c.node, place.ancestors⟩) := by
  cases items with
  | nil => exact .unchanged
  | cons c items =>
    rw [Visitor.walkItems]
    exact (reports_walkContent place c).bind ((reports_walkItems place items).last rfl)

end

theorem reports_walkDeclaration (place : Place) (x : Declaration) :
    Reports (recorder.visitor.walkDeclaration place x) (Sighting.parts ⟨.declaration x, place.ancestors⟩) := by
  rw [Sighting.parts_eq rfl, Node.parts_declaration, List.map_map]
  exact (reports_each_attr place x.attributes).last rfl

theorem reports_walkProlog (place : Place) (p : Prolog) :
    Reports (recorder.visitor.walkProlog place p) (Sighting.parts ⟨.prolog p, place.ancestors⟩) := by
  rw [Sighting.parts_eq rfl, Node.parts_prolog, List.map_append, List.map_map, List.map_map]
  have misc := reports_each_misc place p.misc
  obtain ⟨id, declaration, misc⟩ := p
  cases declaration with
  | none => exact misc.last rfl
  | some d => exact (Reports.record (.declaration d) (reports_walkDeclaration place d)).bind (misc.last rfl)

theorem reports_walkDocument (place : Place) (d : Document) :
    Reports (recorder.visitor.walkDocument place d) (Sighting.parts ⟨.document d, place.ancestors⟩) := by
  rw [Sighting.parts_eq rfl, Node.parts_document, List.map_cons, List.map_cons, List.map_map]
  refine .checkpoint ?_
  refine (Reports.record (.prolog d.prolog) (reports_walkProlog place d.prolog)).bind ?_
  refine (Reports.record (.tag d.root) (reports_walkTag place d.root)).bind ?_
  exact (reports_each_misc place d.epilog).last rfl

theorem reports_visit (d : Document) : Reports (recorder.visitor.visit d) [⟨.document d, []⟩] :=
  (Reports.record (.document d) (reports_walkDocument (Visitor.placeOf d) d)).last rfl

/-- What the recorder sees of a document, with places and with a cursor. -/
structure Document.Seen (d : Document) (log : List Sighting) : Prop where
  tour : Tour Sighting.parts ⟨.document d, []⟩ log
  nodes : ∀ n : Node, n.Within (.document d) ↔ ∃ ancestors, ⟨n, ancestors⟩ ∈ log
  visit : ∀ s before, s.context.cancelled = false →
    (recorder.visitor.visit d).run.run (s, before) = (.ok .unchanged, s, before ++ log)
  cursor : ∀ s before, s.context.cancelled = false →
    (recorder.visit d).run.run ⟨Visitor.placeOf d, s, before⟩ = (.ok .unchanged, ⟨Visitor.placeOf d, s, before ++ log⟩)

/-- How the order of addresses shows in the text. -/
structure Document.InOrder (d : Document) : Prop where
  starts : ∀ a b y z, a < b → Sighting.at? ⟨.document d, []⟩ a = some y → Sighting.at? ⟨.document d, []⟩ b = some z →
    ((Node.document d).front a).length ≤ ((Node.document d).front b).length
  prints : ∀ a y, Sighting.at? ⟨.document d, []⟩ a = some y → (Node.document d).Shows a →
    ∃ behind, d.print = (Node.document d).front a ++ y.node.print ++ behind
  shows : (∀ t, (Node.tag t).Within (.document d) → t.content.isSome → t.closing.isSome) →
    ∀ a y, Sighting.at? ⟨.document d, []⟩ a = some y → (Node.document d).Shows a

theorem Document.exists_seen (d : Document) : ∃ log, d.Seen log := by
  obtain ⟨log, tours, runs⟩ := reports_visit d
  have tour : Tour Sighting.parts ⟨.document d, []⟩ log := Tours.singleton_iff.1 tours
  refine ⟨log, tour, fun n => ⟨fun within => ?_, ?_⟩, runs, fun s before hs => ?_⟩
  · obtain ⟨a, ancestors, ha⟩ := Sighting.exists_at? within []
    exact ⟨ancestors, tour.mem_iff.2 ⟨a, ha⟩⟩
  · rintro ⟨ancestors, seen⟩
    obtain ⟨a, ha⟩ := tour.mem_iff.1 seen
    exact Sighting.within_of_at? ha
  · rw [recorder.run_visit d (s, before), runs s before hs]

theorem Document.inOrder (d : Document) : d.InOrder where
  starts _ _ _ _ less ha hb := Sighting.starts_le less ha hb
  prints _ _ ha shown := Sighting.exists_behind ha shown
  shows h _ _ ha := Sighting.shows_of_at? h ha

/-- Of every document the recorder sees each node once, with the names around it, in the order in which the nodes print;
and no visitor whatever leaves the cursor elsewhere, whether its walks fail or not. -/
theorem Document.traversal (d : Document) : (∃ log, d.Seen log) ∧ d.InOrder ∧
    ∀ (σ ε : Type) [Cancellable (ExceptT ε (StateM σ))] (h : Hooks σ ε), h.Balanced :=
  ⟨d.exists_seen, d.inOrder, fun _ _ _ h => h.balanced⟩

end Markup
end Emend
