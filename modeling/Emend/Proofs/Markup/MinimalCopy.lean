import Emend.Proofs.Markup.Idle
import Emend.Proofs.Markup.Override
import Emend.Proofs.Markup.Reuse
import Mathlib

/-! # Walks copy as little as they can

A walk through a document finds what the naive traversal finds, calls it a change exactly if it differs from
the document, and keeps the reference to every child that is as it was.
-/

namespace Emend.Markup

variable {m : Type → Type} [Monad m]

/-- The hook of an override for nodes with references: what it makes itself is new. -/
def Override.hookRef {α ρ : Type} [Erasable ρ α] (o : Override m α) (place : Place) (r : ρ) (walk : m (Visit ρ)) :
    m (Visit ρ) := do
  match ← o place (erase r) with
  | .finish outcome => return outcome.map allocate
  | .walk after => do
    let outcome ← walk
    return ((← after (erase (outcome.getD r))).map (Visit.map allocate)).getD outcome

def Overrides.onRefs (o : Overrides m) : Shared.Visitor m where
  prolog := o.prolog.hookRef
  declaration := o.declaration.hookRef
  tag := o.tag.hookRef
  attr place r := Visit.map allocate <$> o.attr place (erase r)
  charData place r := Visit.map allocate <$> o.charData place (erase r)
  comment place r := Visit.map allocate <$> o.comment place (erase r)
  instruction place r := Visit.map allocate <$> o.instruction place (erase r)
  docType place r := Visit.map allocate <$> o.docType place (erase r)

variable [LawfulMonad m]

theorem Override.erase_hookRef {α ρ : Type} [Erasable ρ α] (o : Override m α) (place : Place) (r : ρ)
    (walk : m (Visit ρ)) :
    Visit.map erase <$> o.hookRef place r walk = o.hook place (erase r) (Visit.map erase <$> walk) := by
  rw [hookRef, hook, map_bind]
  apply bind_congr
  intro reply
  cases reply with
  | finish outcome => simp only [map_pure, map_allocate_erase]
  | walk after =>
    simp only [map_bind, bind_map_left, map_pure, Visit.getD_map]
    apply bind_congr
    intro outcome
    apply bind_congr
    intro own
    cases own with
    | none => rfl
    | some own => simp only [Option.map_some, Option.getD_some, map_allocate_erase]

theorem Overrides.onRefs_erases (o : Overrides m) : o.onRefs.Erases o.visitor where
  prolog := o.prolog.erase_hookRef
  declaration := o.declaration.erase_hookRef
  tag := o.tag.erase_hookRef
  attr _ _ := map_erase_allocate _
  charData _ _ := map_erase_allocate _
  comment _ _ := map_erase_allocate _
  instruction _ _ := map_erase_allocate _
  docType _ _ := map_erase_allocate _

variable [Cancellable m]

theorem walkDocument_of_isIdle {v : Visitor m} (hv : v.IsOblivious) (hi : v.IsIdle) (place : Place) (d : Document) :
    Yields .unchanged (v.walkDocument place d) := by
  rw [Visitor.walkDocument_eq hv, ← Visit.of_self d]
  exact (Visitor.rebuildDocument_of_isIdle hi place d).map (Visit.of d)

theorem walkDocument_minimal_copy (o : Overrides m) (place : Place) (d : Document) :
    o.visitor.walkDocument place d = Visit.of d <$> o.visitor.rebuildDocument place d ∧
    (o.visitor.IsIdle → Yields .unchanged (o.visitor.walkDocument place d)) ∧
    ∀ s : Shared.Visitor m, s.Reuses ∧ (s.Erases o.visitor → ∀ r, erase r = d →
      Visit.map erase <$> s.walkDocument place r = o.visitor.walkDocument place d) := by
  refine ⟨?_, ?_, ?_⟩
  · exact Visitor.walkDocument_eq o.visitor_isOblivious place d
  · intro hi
    exact walkDocument_of_isIdle o.visitor_isOblivious hi place d
  · intro s
    refine ⟨s.reuses, ?_⟩
    rintro hs r rfl
    exact Shared.Visitor.erase_walkDocument hs place r

def versionBump : Overrides Visiting where
  charData _ d := return if d.text = "4.12" then .changed { d with text := "4.13.2" } else .unchanged

/-- `<d><a>x</a><v>4.12</v></d>`, with the references and the version on the way down to it as given. -/
def Shared.dependency (document root element text : Option Nat) (version : String) : Ref Shared.Document :=
  let a : Ref Shared.Tag := ⟨some 1, ⟨⟨1⟩, "", [], "a", [], some [.charData ⟨some 2, ⟨2⟩, "", false, "x"⟩],
    some ⟨some 3, ⟨3⟩, "", "a", ""⟩, ""⟩⟩
  let v : Ref Shared.Tag := ⟨element, ⟨⟨4⟩, "", [], "v", [], some [.charData ⟨text, ⟨5⟩, "", false, version⟩],
    some ⟨some 4, ⟨6⟩, "", "v", ""⟩, ""⟩⟩
  ⟨document, ⟨7⟩, ⟨"pom.xml"⟩, .mavenPom, [], false, ⟨some 5, ⟨8⟩, none, []⟩,
    ⟨root, ⟨9⟩, "", [], "d", [], some [.tag a, .tag v], some ⟨some 6, ⟨10⟩, "", "d", ""⟩, ""⟩, [], "\n"⟩

/-- Only the way down to the version is new. -/
theorem walkDocument_minimal_copy_versionBump :
    let place : Place := ⟨⟨"pom.xml"⟩, .mavenPom, []⟩
    let before := Shared.dependency (some 7) (some 8) (some 9) (some 10) "4.12"
    let after := Shared.dependency none none none none "4.13.2"
    ((versionBump.onRefs.walkDocument place before).run.run {}).1 = .ok (.changed after) ∧
      ((versionBump.visitor.walkDocument place (erase before)).run.run {}).1 = .ok (.changed (erase after)) := by
  intro place before after
  obtain ⟨-, -, h⟩ := walkDocument_minimal_copy versionBump place (erase before)
  rw [← (h versionBump.onRefs).2 versionBump.onRefs_erases before rfl]
  constructor
  · cbv
  · cbv

end Emend.Markup
