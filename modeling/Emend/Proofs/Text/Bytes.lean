import Mathlib.Data.List.Basic

/-! # The bytes of characters

A text is stored as the bytes of its characters, one character behind the other: an ASCII character is its own byte,
and no byte of any other character is ASCII.
-/

namespace Emend.Text

theorem toList_toUTF8 (s : String) : s.toUTF8.data.toList = s.toList.flatMap String.utf8EncodeChar := by
  rw [String.toUTF8_eq_toByteArray, ← String.utf8Encode_toList, List.utf8Encode, List.toList_data_toByteArray]

/-- An ASCII character is its own byte, and all bytes of any other lie behind ASCII. -/
theorem toNat_of_mem_utf8EncodeChar {c : Char} {byte : UInt8} (h : byte ∈ String.utf8EncodeChar c) :
    byte.toNat = c.toNat ∨ 128 ≤ byte.toNat := by
  unfold String.utf8EncodeChar at h
  dsimp only at h
  split at h
  next hc =>
    have hc' : c.toNat ≤ 0x7f := hc
    left
    rw [List.mem_singleton.1 h]
    change (UInt8.ofNat c.toNat).toNat = c.toNat
    rw [UInt8.toNat_ofNat']
    omega
  · right
    split at h
    · simp only [List.mem_cons, List.not_mem_nil, or_false] at h
      rcases h with rfl | rfl <;> rw [UInt8.toNat_ofNat'] <;> omega
    split at h
    · simp only [List.mem_cons, List.not_mem_nil, or_false] at h
      rcases h with rfl | rfl | rfl <;> rw [UInt8.toNat_ofNat'] <;> omega
    · simp only [List.mem_cons, List.not_mem_nil, or_false] at h
      rcases h with rfl | rfl | rfl | rfl <;> rw [UInt8.toNat_ofNat'] <;> omega

/-- An ASCII byte is found in the bytes of its own character only. -/
theorem ne_of_mem_utf8EncodeChar {c d : Char} {byte : UInt8} (h : byte ∈ String.utf8EncodeChar c) (hd : d.toNat < 128)
    (hc : c ≠ d) : byte ≠ UInt8.ofNat d.toNat := by
  intro hb
  have hn : byte.toNat = d.toNat := by
    rw [hb, UInt8.toNat_ofNat']
    omega
  rcases toNat_of_mem_utf8EncodeChar h with h | h
  · exact hc (Char.toNat_inj.1 (h.symm.trans hn))
  · omega

theorem utf8EncodeChar_of_lt {c : Char} (h : c.toNat < 128) : String.utf8EncodeChar c = [UInt8.ofNat c.toNat] := by
  have hc : c.val.toNat ≤ 0x7f := by
    have : c.val.toNat = c.toNat := rfl
    omega
  unfold String.utf8EncodeChar
  dsimp only
  rw [if_pos hc]
  rfl

end Emend.Text
