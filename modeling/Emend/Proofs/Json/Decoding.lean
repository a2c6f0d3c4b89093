import Emend.Json.Shape
import Emend.Proofs.Json.Printing
import Emend.Proofs.Outcome
import Mathlib.Algebra.GroupWithZero.Nat

/-! # What decoders accept

`Decodes d j a` says that `d` takes `j` for `a` wherever the value comes from. It is proved for each
combinator from its parts, so that a codec is inverted by following how it is built.
-/

namespace Emend

/-- Entries in order, put one by one into a map that all of them come behind, end up behind its own. -/
theorem SortedMap.insertEntry_of_lt {α : Type} {key : String} {a : α} {entries : List (String × α)}
    (h : ∀ p ∈ entries, p.1 < key) : insertEntry key a entries = entries ++ [(key, a)] := by
  induction entries with
  | nil => rfl
  | cons p rest ih =>
    have hp := h p List.mem_cons_self
    rw [insertEntry, if_neg (String.lt_asymm hp), if_neg (String.ne_of_lt hp).symm,
      ih fun q hq => h q (List.mem_cons_of_mem p hq)]
    rfl

theorem SortedMap.ext_entries {α : Type} {m n : SortedMap α} (h : m.entries = n.entries) : m = n := by
  cases m
  cases n
  cases h
  rfl

namespace Json

def Decodes {α : Type} (d : Decoder α) (j : Json) (a : α) : Prop := ∀ how, d how j = .ok a

section

variable {α β : Type} {d : Decoder α} {j : Json} {a : α}

theorem Decodes.map (h : Decodes d j a) (f : α → β) : Decodes (d.map f) j (f a) := by
  intro how
  rw [Decoder.map, h how]
  rfl

theorem decodes_text (expected s : String) : Decodes (decodeText expected) (.string s) s := fun _ => rfl

theorem decodes_bool (b : Bool) : Decodes decodeBool (.bool b) b := fun _ => rfl

theorem decodes_nat {bits n : Nat} (name : String) (h : n < 2 ^ bits) : Decodes (decodeNat bits name) (.nat n) n := by
  intro how
  rw [Json.nat, decodeNat, if_pos ⟨Int.natCast_nonneg n, h⟩]
  rfl

theorem decodes_none : Decodes (decodeOption d) .null none := fun _ => rfl

theorem decodes_some (hj : j ≠ .null) (h : Decodes d j a) : Decodes (decodeOption d) j (some a) := by
  intro how
  rw [decodeOption, h how]
  · rfl
  · exact hj

theorem decodes_list {as : List α} {f : α → Json} (h : ∀ a ∈ as, Decodes d (f a) a) :
    Decodes (decodeList d) (.array (as.map f)) as := by
  intro how
  rw [decodeList]
  induction as with
  | nil => rfl
  | cons a as ih =>
    rw [List.map_cons, List.mapM_cons, h a List.mem_cons_self how,
      ih fun x hx => h x (List.mem_cons_of_mem a hx)]
    rfl

theorem foldlM_insert {f : α → Json} (h : ∀ a, Decodes d (f a) a) (how : Delivery) {m n : SortedMap α}
    {entries : List (String × α)} (hm : m.entries ++ entries = n.entries) :
    (entries.map fun (k, a) => (k, f a)).foldlM
      (fun (m : SortedMap α) (key, j) => return m.insert key (← d how j)) m = Except.ok n := by
  induction entries generalizing m with
  | nil =>
    rw [List.append_nil] at hm
    rw [SortedMap.ext_entries hm]
    rfl
  | cons e rest ih =>
    obtain ⟨key, a⟩ := e
    have hs := n.sorted
    rw [← hm, List.pairwise_append] at hs
    have hi : (m.insert key a).entries ++ rest = n.entries := by
      change SortedMap.insertEntry key a m.entries ++ rest = n.entries
      rw [SortedMap.insertEntry_of_lt fun p hp => hs.2.2 p hp _ List.mem_cons_self, ← hm,
        List.append_assoc]
      rfl
    rw [List.map_cons, List.foldlM_cons]
    dsimp only
    rw [h a how]
    exact ih hi

theorem decodes_map {f : α → Json} (h : ∀ a, Decodes d (f a) a) (m : SortedMap α) :
    Decodes (decodeMap d) (.object (m.entries.map fun (k, a) => (k, f a))) m :=
  fun how => foldlM_insert h how (List.nil_append _)

theorem decodes_choice {variants : List (String × α)} {name : String} (h : variants.lookup name = some a) :
    Decodes (decodeChoice variants) (.string name) a := by
  intro how
  rw [decodeChoice, variant?, h]

theorem decodes_tagged {type tag content name : String} {variants : List (String × Decoder α)}
    (ht : content ≠ tag) (hn : variants.lookup name = some d) (h : Decodes d j a) :
    Decodes (decodeTagged type tag content variants) (.object [(tag, .string name), (content, j)]) a := by
  intro how
  have hr : [(tag, Json.string name), (content, j)].filter (fun (key, _) => key == tag || key == content) =
      [(tag, .string name), (content, j)] := by
    simp
  unfold decodeTagged
  dsimp only
  rw [hr]
  dsimp only
  rw [if_pos rfl, decodes_choice hn how]
  dsimp only [bind, Except.bind]
  rw [if_neg ht]
  dsimp only [pure, Except.pure]
  rw [h how]

end

/-- The record is taken from the fields, wherever they come from; others among them are passed over. -/
def Fills {α : Type} (r : Record α) (fields : List (String × Json)) (a : α) : Prop :=
  ∀ how, r.ofFields false how fields = .ok a

section

open Record

variable {α β : Type} {r : Record α} {s : Record β} {fields : List (String × Json)} {a : α} {b : β}
  {absence : Absence α} {name : String} {d : Decoder α} {j : Json}

theorem Fills.decoder (h : Fills r fields a) (expected : String) :
    Decodes (r.decoder expected false) (.object fields) a := h

def Record.step (r : Record α) (how : Delivery) (state : r.State) (field : String × Json) : Except ShapeError r.State :=
  (r.put how field.1 field.2 state).getD (.ok state)

theorem fills_iff : Fills r fields a ↔
    ∀ how, ∃ state, fields.foldlM (r.step how) r.start = .ok state ∧ r.finish state = .ok a := by
  refine forall_congr' fun how => ?_
  have hs : r.ofFields false how fields = fields.foldlM (r.step how) r.start >>= r.finish := by
    unfold ofFields
    congr 2
    funext state ⟨name, j⟩
    simp only [Record.step]
    cases r.put how name j state <;> rfl
  rw [hs]
  exact bind_eq_ok

theorem Fills.map {f : α → β} (h : Fills r fields a) (hb : f a = b) : Fills (Record.map f r) fields b := by
  refine fills_iff.2 fun how => ?_
  obtain ⟨state, hs, hf⟩ := fills_iff.1 h how
  exact ⟨state, hs, map_eq_ok.2 ⟨a, hf, hb⟩⟩

theorem decodes_record {f : α → β} {expected : String} (h : Fills r fields a) (hb : f a = b) :
    Decodes ((Record.map f r).decoder expected false) (.object fields) b :=
  Fills.decoder (h.map hb) expected

/-- A field that no part of the record knows changes nothing. -/
theorem Fills.skip (hp : ∀ how, r.put how name j r.start = none) (h : Fills r fields a) :
    Fills r ((name, j) :: fields) a := by
  refine fills_iff.2 fun how => ?_
  obtain ⟨state, hs, hf⟩ := fills_iff.1 h how
  refine ⟨state, ?_, hf⟩
  rw [List.foldlM_cons, Record.step, hp how]
  exact hs

theorem step_fieldWith_of_ne {how : Delivery} {state : Option α} {field : String × Json} (h : field.1 ≠ name) :
    (fieldWith absence name d).step how state field = .ok state := by
  simp only [Record.step, fieldWith, if_neg h]
  rfl

theorem step_fieldWith_self (h : Decodes d j a) (how : Delivery) :
    (fieldWith absence name d).step how none (name, j) = .ok (some a) := by
  simp only [Record.step, fieldWith, if_true, Option.isSome_none, Bool.false_eq_true, if_false, h how]
  rfl

/-- Fields of other names leave the state of a field as it is. -/
theorem foldlM_fieldWith {how : Delivery} {state : Option α} (h : ∀ f ∈ fields, f.1 ≠ name) :
    fields.foldlM ((fieldWith absence name d).step how) state = .ok state := by
  induction fields with
  | nil => rfl
  | cons f fields ih =>
    exact bind_eq_ok.2 ⟨state, step_fieldWith_of_ne (h f List.mem_cons_self),
      ih fun g hg => h g (List.mem_cons_of_mem f hg)⟩

theorem fills_fieldWith (h : Decodes d j a) (hn : ∀ f ∈ fields, f.1 ≠ name) :
    Fills (fieldWith absence name d) ((name, j) :: fields) a := by
  refine fills_iff.2 fun how => ⟨some a, ?_, rfl⟩
  exact bind_eq_ok.2 ⟨some a, step_fieldWith_self h how, foldlM_fieldWith hn⟩

/-- Fields that the first part does not know go to the second. -/
theorem foldlM_both {how : Delivery} {state : r.State} {state₁ state₂ : s.State}
    (hp : ∀ f ∈ fields, r.put how f.1 f.2 state = none) (hs : fields.foldlM (s.step how) state₁ = .ok state₂) :
    fields.foldlM ((r.both s).step how) (state, state₁) = .ok (state, state₂) := by
  induction fields generalizing state₁ with
  | nil =>
    cases hs
    rfl
  | cons f fields ih =>
    obtain ⟨next, hf, hs⟩ := bind_eq_ok.1 hs
    refine bind_eq_ok.2 ⟨(state, next), ?_, ih (fun g hg => hp g (List.mem_cons_of_mem f hg)) hs⟩
    unfold Record.step at hf ⊢
    simp only [Record.both, hp f List.mem_cons_self]
    cases hq : s.put how f.1 f.2 state₁ with
    | none =>
      rw [hq] at hf
      cases hf
      rfl
    | some x =>
      rw [hq] at hf
      rw [show x = .ok next from hf]
      rfl

theorem fills_both (h : Decodes d j a) (hn : ∀ f ∈ fields, f.1 ≠ name) (hs : Fills s fields b) :
    Fills ((fieldWith absence name d).both s) ((name, j) :: fields) (a, b) := by
  refine fills_iff.2 fun how => ?_
  obtain ⟨state, hs, hf⟩ := fills_iff.1 hs how
  refine ⟨(some a, state), ?_, bind_eq_ok.2 ⟨a, rfl, bind_eq_ok.2 ⟨b, hf, rfl⟩⟩⟩
  refine bind_eq_ok.2 ⟨(some a, s.start), ?_, foldlM_both (fun f hf => ?_) hs⟩
  · simp only [Record.step, Record.both, fieldWith, if_true, Option.isSome_none, Bool.false_eq_true, if_false, h how]
    rfl
  · simp only [fieldWith, if_neg (hn f hf)]

end

mutual

theorem Plain.inRange (j : Json) (h : j.Plain) : j.inRange = true := by
  cases j with
  | null | bool _ | int _ | string _ => rfl
  | real _ => exact h.elim
  | array items => exact PlainAll.inRangeAll items h
  | object fields => exact PlainFields.inRangeFields fields h

theorem PlainAll.inRangeAll (js : List Json) (h : PlainAll js) : Json.inRangeAll js = true := by
  cases js with
  | nil => rfl
  | cons j js => rw [Json.inRangeAll, Plain.inRange j h.1, PlainAll.inRangeAll js h.2, Bool.and_self]

theorem PlainFields.inRangeFields (fs : List (String × Json)) (h : PlainFields fs) : Json.inRangeFields fs = true := by
  cases fs with
  | nil => rfl
  | cons f fs =>
    obtain ⟨_, j⟩ := f
    rw [Json.inRangeFields, Plain.inRange j h.1, PlainFields.inRangeFields fs h.2, Bool.and_self]

end

/-- Fields that are not the tag are kept for later, the last one first. -/
theorem foldlM_untagged {α : Type} {tag : String} (variants : List (String × Decoder α)) (how : Delivery)
    (d : Decoder α) {fields : List (String × Json)} (read : List (String × Json)) (hf : ∀ f ∈ fields, f.1 ≠ tag) :
    fields.foldlM (fun (x : Option (Decoder α) × List (String × Json)) (f : String × Json) => do
      if f.1 = tag then
        if Option.isSome x.1 then throw (.duplicateField tag)
        return (some (← decodeVariantName variants how f.2), x.2)
      else return (x.1, f :: x.2)) (some d, read) = Except.ok (some d, fields.reverse ++ read) := by
  induction fields generalizing read with
  | nil => rfl
  | cons f fields ih =>
    rw [List.foldlM_cons, if_neg (hf f List.mem_cons_self)]
    refine bind_eq_ok.2 ⟨_, rfl, ?_⟩
    rw [ih _ fun g hg => hf g (List.mem_cons_of_mem f hg), List.reverse_cons, List.append_assoc]
    rfl

theorem decodes_inlineTagged {α : Type} {type tag name : String} {variants : List (String × Decoder α)} {d : Decoder α}
    {fields : List (String × Json)} {a : α} (hn : variants.lookup name = some d) (hf : ∀ f ∈ fields, f.1 ≠ tag)
    (hp : PlainFields fields) (h : Decodes d (.object fields) a) :
    Decodes (decodeInlineTagged type tag variants) (.object ((tag, .string name) :: fields)) a := by
  intro how
  have hr : putAside (fields.reverse.map (·.2)) = .ok () := by
    have hi : PlainAll (fields.reverse.map (·.2)) := by
      rw [plainAll_iff]
      intro j hj
      obtain ⟨f, hf, rfl⟩ := List.mem_map.1 hj
      exact plainFields_iff.1 hp f (List.mem_reverse.1 hf)
    rw [putAside, PlainAll.inRangeAll _ hi]
    rfl
  have hv : decodeVariantName variants how (.string name) = .ok d := by
    rw [decodeVariantName, variant?, hn]
  have ho := foldlM_untagged variants how d [] hf
  rw [List.append_nil] at ho
  unfold decodeInlineTagged
  dsimp only
  refine bind_eq_ok.2 ⟨(some d, fields.reverse), ?_, ?_⟩
  · rw [List.foldlM_cons, if_pos rfl]
    dsimp only
    rw [hv]
    exact ho
  · dsimp only
    refine bind_eq_ok.2 ⟨(), hr, ?_⟩
    rw [List.reverse_reverse]
    exact h .buffered

end Json
end Emend
