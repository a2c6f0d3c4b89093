import Emend.Proofs.Archive.BracketDepth
import Emend.Proofs.Archive.Codec
import Emend.Proofs.Markup.Lawful

/-! # Reading what was written

A stored source file comes back as it was, to the last field, exactly if it would be accepted: whatever its
strings hold, the bytes nest as deep as the tree is encoded, so the scan for brackets refuses no tree that the
check of the elements would let pass.
-/

namespace Emend

/-- Every node keeps its rules; plain text has none. -/
def Source.Lawful : Source → Prop
  | markup d => d.Lawful
  | text _ => True

namespace Archive

open Json Markup

theorem fromUTF8?_toUTF8 (s : String) : String.fromUTF8? s.toUTF8 = some s := by
  rw [String.toUTF8_eq_toByteArray, String.fromUTF8?, dif_pos s.isValidUTF8]
  rfl

theorem writes_write (pretty : Bool) (s : Source) : Writes (write pretty s).toList (envelope s) := by
  cases pretty with
  | false => exact writes_print (envelope s) (plain_envelope s)
  | true => exact writes_printPretty 0 (envelope s) (plain_envelope s)

theorem bracketDepth_write (pretty : Bool) (s : Source) :
    bracketDepth (write pretty s).toUTF8.data.toList = (envelope s).nesting := by
  have h := bracketDepth_of_writes (writes_write pretty s) .nil .nil
  rwa [List.append_nil, List.nil_append, String.ofList_toList] at h

theorem parse?_write (pretty : Bool) (s : Source) : Json.parse? (write pretty s) = some (envelope s) :=
  parse?_of_writes (writes_write pretty s)

theorem ofJson_envelope_text (t : PlainText) : ofJson (envelope (.text t)) = .ok (.text t) := by
  unfold ofJson
  rw [decodes_header _ .streamed]
  dsimp only [bind, Except.bind, Except.mapError]
  rw [if_neg (by decide), if_neg (by decide), decodes_envelope _ .streamed]
  rfl

/-- A document is decoded and handed to the check of its nodes. -/
theorem ofJson_envelope_markup (d : Document) :
    ofJson (envelope (.markup d)) = (d.check.mapError (.invalid d.path)).map fun _ => .markup d := by
  unfold ofJson
  rw [decodes_header _ .streamed]
  dsimp only [bind, Except.bind, Except.mapError]
  rw [if_neg (by decide), if_neg (by decide), decodes_envelope _ .streamed]
  dsimp only
  cases d.check <;> rfl

theorem read_write_eq {pretty : Bool} {s : Source} (h : (envelope s).nesting ≤ maxNesting) :
    read (write pretty s).toUTF8 =
      (ofJson (envelope s)).mapError fun r => if (envelope s).inRange then r else .malformed := by
  rw [read, bracketDepth_write, if_neg (Nat.not_lt.2 h), fromUTF8?_toUTF8, Option.bind_some, parse?_write]

/-- A tree whose nodes keep their rules is read as it was if its elements do not nest too deep, and refused if
they do. -/
theorem read_write {s : Source} (h : s.Lawful) (pretty : Bool) :
    (s.depth ≤ maxDepth → read (write pretty s).toUTF8 = .ok s) ∧
      (maxDepth < s.depth → ∃ message,
        (read (write pretty s).toUTF8).mapError Refusal.toError = .error (.serialization message)) := by
  constructor
  · intro hd
    rw [read_write_eq (nesting_envelope_le hd)]
    cases s with
    | text t =>
      rw [ofJson_envelope_text]
      rfl
    | markup d =>
      have hc : d.check = .ok () := Document.check_eq_ok.2 ⟨h, hd⟩
      rw [ofJson_envelope_markup, hc]
      rfl
  · intro hd
    rcases Nat.lt_or_ge maxNesting (envelope s).nesting with hn | hn
    · refine ⟨Refusal.nestedTooDeep.message, ?_⟩
      rw [read, bracketDepth_write, if_pos hn]
      rfl
    · rw [read_write_eq hn]
      cases s with
      | text t => exact absurd hd (Nat.not_lt_zero _)
      | markup d =>
        cases hc : d.check with
        | ok _ => exact absurd (Document.check_eq_ok.1 hc).2 (Nat.not_le_of_lt hd)
        | error v =>
          rw [ofJson_envelope_markup, hc]
          exact ⟨_, rfl⟩

/-- Elements one inside the other, `n` of them around the innermost. -/
def tower : Nat → Tag
  | 0 => ⟨.none, "", [], "a", [], none, none, ""⟩
  | n + 1 => ⟨.none, "", [], "a", [], some [.tag (tower n)], some ⟨.none, "", "a", ""⟩, ""⟩

def towerDocument (n : Nat) : Document where
  id := .none
  path := ⟨"a.xml"⟩
  kind := .xml
  markers := []
  bom := false
  prolog := { id := .none, declaration := none, misc := [] }
  root := tower n
  epilog := []
  eof := ""

theorem depth_tower (n : Nat) : (tower n).depth = n + 1 := by
  induction n with
  | zero => rfl
  | succ n ih =>
    rw [tower, Tag.depth, Content.depthBody, Content.depthAll, Content.depthAll, Content.depth, ih, Nat.max_zero]

theorem lawful_of_mem_tower (n : Nat) : ∀ t ∈ (tower n).elements, t.Lawful := by
  induction n with
  | zero =>
    intro t ht
    rcases Tag.mem_elements_iff.1 ht with rfl | ⟨_, ⟨⟩, _⟩
    exact ⟨nofun, trivial⟩
  | succ n ih =>
    intro t ht
    rcases Tag.mem_elements_iff.1 ht with rfl | ⟨_, ⟨⟩, ht⟩
    · refine ⟨nofun, rfl, fun c hc => ?_⟩
      rw [List.mem_singleton.1 hc]
      trivial
    · obtain ⟨c, hc, ht⟩ := Content.mem_elementsAll_iff.1 ht
      rw [List.mem_singleton.1 hc] at ht
      exact ih t ht

theorem lawful_towerDocument (n : Nat) : (Source.markup (towerDocument n)).Lawful where
  kind := rfl
  eof := rfl
  declaration := nofun
  misc := nofun
  epilog := nofun
  elements := lawful_of_mem_tower n

/-- The deepest tower that is read back, and the next one. -/
theorem read_write_towerDocument :
    read (write true (.markup (towerDocument 255))).toUTF8 = .ok (.markup (towerDocument 255)) ∧ ∃ message,
      (read (write false (.markup (towerDocument 256))).toUTF8).mapError Refusal.toError =
        .error (.serialization message) :=
  ⟨(read_write (lawful_towerDocument 255) true).1 (Nat.le_of_eq (depth_tower 255)),
    (read_write (lawful_towerDocument 256) false).2 (Nat.lt_of_lt_of_eq (by decide) (depth_tower 256).symm)⟩

end Archive
end Emend
