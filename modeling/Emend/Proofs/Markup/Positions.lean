import Mathlib.Data.List.Infix
import Mathlib.Data.Prod.Lex
import Emend.Proofs.Markup.Places
import Emend.Proofs.Text.Bytes

/-! # Positions of errors

An error tells a line and a column. They are counted up to an offset in the bytes of the text, at which a character
begins or the text ends (`Document.locates`). From one such offset to a later one the position grows, first by the
line and then by the column, so that the position tells the offset again.
-/

namespace Emend

namespace Text

theorem beginsChar_ofNat {n : Nat} : beginsChar (UInt8.ofNat n) = true ↔ n % 256 < 128 ∨ 192 ≤ n % 256 := by
  simp only [beginsChar, Bool.or_eq_true, decide_eq_true_eq, UInt8.lt_iff_toNat_lt, UInt8.le_iff_toNat_le,
    UInt8.toNat_ofNat']
  rfl

/-- Every character begins once. -/
theorem countP_beginsChar_utf8EncodeChar (c : Char) : (String.utf8EncodeChar c).countP beginsChar = 1 := by
  have hc : c.val.toNat < 0x110000 := by
    have := c.valid
    simp only [UInt32.isValidChar, Nat.isValidChar] at this
    omega
  have first {n : Nat} (h : n % 256 < 128 ∨ 192 ≤ n % 256) (bytes : List UInt8) :
      (UInt8.ofNat n :: bytes).countP beginsChar = bytes.countP beginsChar + 1 :=
    List.countP_cons_of_pos (beginsChar_ofNat.2 h)
  have behind {n : Nat} (h : 128 ≤ n % 256 ∧ n % 256 < 192) (bytes : List UInt8) :
      (UInt8.ofNat n :: bytes).countP beginsChar = bytes.countP beginsChar := by
    refine List.countP_cons_of_neg (mt beginsChar_ofNat.1 ?_)
    omega
  unfold String.utf8EncodeChar
  dsimp only
  split
  · rw [first (by omega), List.countP_nil]
  split
  · rw [first (by omega), behind (by omega), List.countP_nil]
  split
  · rw [first (by omega), behind (by omega), behind (by omega), List.countP_nil]
  · rw [first (by omega), behind (by omega), behind (by omega), behind (by omega), List.countP_nil]

end Text

namespace Markup

/-- What the positions in a text tell. -/
structure Document.Locates (path : FilePath) (source : String) : Prop where
  /-- An error tells the position of an offset at which no character is cut, and what it is about stands there. -/
  reported : ∀ ids ids' e, (Document.parse path source).run.run ids = (.error e, ids') →
    ∃ (cause : Cause) (offset : String.Pos.Raw), offset.IsValid source ∧ offset.byteIdx ≤ source.utf8ByteSize ∧
      cause.mark.flatMap String.utf8EncodeChar <+: source.toUTF8.data.toList.drop offset.byteIdx ∧
      (∃ rest, cause.Fits rest ∧
        rest.flatMap String.utf8EncodeChar = source.toUTF8.data.toList.drop offset.byteIdx) ∧
      e = .parse path cause.message (lineColumn source offset).1 (lineColumn source offset).2
  increasing : ∀ offset later : String.Pos.Raw, offset.IsValid source → later.IsValid source → offset < later →
    toLex (lineColumn source offset) < toLex (lineColumn source later)
  determined : ∀ offset other : String.Pos.Raw, offset.IsValid source → other.IsValid source →
    lineColumn source offset = lineColumn source other → offset = other

/-- Line and column behind some characters, both from one. -/
def position (before : List Char) : Nat × Nat :=
  (before.count '\n' + 1, (before.reverse.takeWhile (· != '\n')).length + 1)

theorem position_append_singleton (s : List Char) (c : Char) :
    position (s ++ [c]) = if c = '\n' then ((position s).1 + 1, 1) else ((position s).1, (position s).2 + 1) := by
  split
  next h => simp [position, h]
  next h => simp [position, h]

theorem position_lt_append_singleton (s : List Char) (c : Char) :
    toLex (position s) < toLex (position (s ++ [c])) := by
  rw [position_append_singleton, Prod.Lex.toLex_lt_toLex]
  split
  · exact .inl (Nat.lt_succ_self _)
  · exact .inr ⟨rfl, Nat.lt_succ_self _⟩

theorem position_lt_append (s : List Char) (c : Char) (t : List Char) :
    toLex (position s) < toLex (position (s ++ c :: t)) := by
  induction t generalizing s c with
  | nil => exact position_lt_append_singleton s c
  | cons d t ih =>
    have more := ih (s ++ [c]) d
    rw [List.append_assoc] at more
    exact (position_lt_append_singleton s c).trans more

theorem bytePosition_append_utf8EncodeChar (bytes : List UInt8) (c : Char) :
    bytePosition (bytes ++ String.utf8EncodeChar c) =
      if c = '\n' then ((bytePosition bytes).1 + 1, 1) else ((bytePosition bytes).1, (bytePosition bytes).2 + 1) := by
  split
  next h =>
    have feed : String.utf8EncodeChar '\n' = [0x0A] := Text.utf8EncodeChar_of_lt (by decide)
    simp [bytePosition, h, feed]
  next h =>
    have other : ∀ byte ∈ String.utf8EncodeChar c, byte ≠ 0x0A := fun byte hb =>
      Text.ne_of_mem_utf8EncodeChar hb (by decide) h
    have line : (String.utf8EncodeChar c).count 0x0A = 0 := List.count_eq_zero.2 fun hb => other _ hb rfl
    have column : ∀ byte ∈ (String.utf8EncodeChar c).reverse, (byte != 0x0A) = true := fun byte hb =>
      bne_iff_ne.2 (other byte (List.mem_reverse.1 hb))
    simp only [bytePosition, List.count_append, line, List.reverse_append, List.takeWhile_append_of_pos column,
      List.countP_append, List.countP_reverse, Text.countP_beginsChar_utf8EncodeChar, Nat.add_zero]
    rw [Nat.add_comm 1]

/-- Counted in bytes or in characters, the position is the same. -/
theorem bytePosition_flatMap (s : List Char) : bytePosition (s.flatMap String.utf8EncodeChar) = position s := by
  induction s using List.reverseRecOn with
  | nil => rfl
  | append_singleton s c ih =>
    rw [List.flatMap_append, List.flatMap_singleton, bytePosition_append_utf8EncodeChar, position_append_singleton, ih]

theorem length_flatMap_utf8EncodeChar (s : String) :
    (s.toList.flatMap String.utf8EncodeChar).length = s.rawEndPos.byteIdx := by
  rw [← Text.toList_toUTF8]
  rfl

theorem lineColumn_append (before rest : String) :
    lineColumn (before ++ rest) before.rawEndPos = position before.toList := by
  rw [lineColumn, Text.toList_toUTF8, String.toList_append, List.flatMap_append,
    List.take_left' (length_flatMap_utf8EncodeChar before), bytePosition_flatMap]

example : lineColumn "ab\ncé\nx" ⟨7⟩ = (3, 1) := by decide

theorem drop_toUTF8_append (before rest : String) :
    (before ++ rest).toUTF8.data.toList.drop before.rawEndPos.byteIdx = rest.toList.flatMap String.utf8EncodeChar := by
  rw [Text.toList_toUTF8, String.toList_append, List.flatMap_append,
    List.drop_left' (length_flatMap_utf8EncodeChar before)]

theorem rawEndPos_mono {s t : String} (h : s.toList <+: t.toList) :
    s.rawEndPos.byteIdx ≤ t.rawEndPos.byteIdx := by
  rw [← length_flatMap_utf8EncodeChar, ← length_flatMap_utf8EncodeChar]
  exact (h.flatMap _).length_le

/-- What stands in front of a later offset continues what stands in front of the first one. -/
theorem exists_cons_of_lt {before rest before' rest' : String} (e : before ++ rest = before' ++ rest')
    (h : before.rawEndPos < before'.rawEndPos) : ∃ c t, before'.toList = before.toList ++ c :: t := by
  have pre : before.toList <+: before'.toList := by
    have whole := congrArg String.toList e
    rw [String.toList_append, String.toList_append] at whole
    rcases List.prefix_or_prefix_of_prefix ⟨_, rfl⟩ ⟨_, whole.symm⟩ with pre | pre
    · exact pre
    · exact absurd (rawEndPos_mono pre) (Nat.not_le.2 h)
  obtain ⟨t, ht⟩ := pre
  cases t with
  | nil =>
    rw [List.append_nil, String.toList_inj] at ht
    exact absurd h (ht ▸ Nat.lt_irrefl _)
  | cons c t => exact ⟨c, t, ht.symm⟩

theorem lineColumn_lt {source : String} {offset later : String.Pos.Raw} (ho : offset.IsValid source)
    (hl : later.IsValid source) (h : offset < later) :
    toLex (lineColumn source offset) < toLex (lineColumn source later) := by
  obtain ⟨before, rest, rfl, rfl⟩ := String.Pos.Raw.isValid_iff_exists_append.1 ho
  obtain ⟨before', rest', e, rfl⟩ := String.Pos.Raw.isValid_iff_exists_append.1 hl
  obtain ⟨c, t, ht⟩ := exists_cons_of_lt e h
  rw [lineColumn_append, e, lineColumn_append, ht]
  exact position_lt_append before.toList c t

/-- A fault that lies in the text is at an offset of it. -/
theorem Fault.LiesIn.exists_append {f : Fault} {source : String} (h : f.LiesIn source.toList) :
    ∃ before rest : String, before ++ rest = source ∧ f.cause.Fits rest.toList ∧
      f.offset source = before.rawEndPos := by
  obtain ⟨rest, ⟨before, whole⟩, fits, remaining⟩ := h
  obtain rfl : String.ofList before ++ String.ofList rest = source := by
    rw [← String.ofList_append, whole, String.ofList_toList]
  refine ⟨_, _, rfl, by rwa [String.toList_ofList], ?_⟩
  rw [Fault.offset, remaining, Text.size, String.utf8ByteSize_append, Nat.add_sub_cancel]
  rfl

/-- Every error has the position of an offset in the text, and no other offset has it. -/
theorem Document.locates (path : FilePath) (source : String) : Document.Locates path source where
  reported ids ids' e h := by
    cases read : readDocument path (kindAt path) source.toList with
    | ok d =>
      unfold Document.parse at h
      rw [read] at h
      cases h
    | error f =>
      cases h.symm.trans (run_parse_of_error read ids)
      obtain ⟨before, rest, whole, fits, place⟩ := (liesIn_readDocument read).exists_append
      refine ⟨f.cause, f.offset source, ?_, ?_, ?_, ⟨rest.toList, fits, ?_⟩, rfl⟩
      · rw [place]
        exact String.Pos.Raw.isValid_iff_exists_append.2 ⟨before, rest, whole.symm, rfl⟩
      · exact Nat.sub_le _ _
      · rw [place, ← whole, drop_toUTF8_append]
        exact fits.mark.flatMap _
      · rw [place, ← whole, drop_toUTF8_append]
  increasing _ _ := lineColumn_lt
  determined offset other ho ht e := by
    rcases Nat.lt_trichotomy offset.byteIdx other.byteIdx with h | h | h
    · exact absurd (congrArg toLex e) (lineColumn_lt ho ht h).ne
    · exact String.Pos.Raw.ext h
    · exact absurd (congrArg toLex e) (lineColumn_lt ht ho h).ne'

end Markup
end Emend
