import Emend.Text.Blank
import Emend.Text.Step
import Mathlib.Data.List.DropRight
import Mathlib.Data.List.TakeWhile

/-! # What is found where

A run of characters ends in front of the first one that does not belong to it, and a text that does not hold
a mark is what stands before it.
-/

namespace Emend.Text

theorem forall_head_cons {P : Char → Prop} {c : Char} {s : List Char} (h : P c) : ∀ d ∈ (c :: s).head?, P d := by
  intro d hd
  cases hd
  exact h

theorem takeWhile_append_stop {p : Char → Bool} {a s : List Char} (ha : ∀ c ∈ a, p c = true)
    (hs : ∀ c ∈ s.head?, p c = false) : (a ++ s).takeWhile p = a := by
  rw [List.takeWhile_append_of_pos ha]
  cases s with
  | nil => simp
  | cons c s => simp [hs c rfl]

theorem dropWhile_append_stop {p : Char → Bool} {a s : List Char} (ha : ∀ c ∈ a, p c = true)
    (hs : ∀ c ∈ s.head?, p c = false) : (a ++ s).dropWhile p = s := by
  rw [List.dropWhile_append_of_pos ha]
  cases s with
  | nil => rfl
  | cons c s => simp [hs c rfl]

theorem allBlank_iff {s : String} : allBlank s = true ↔ ∀ c ∈ s.toList, isBlank c = true := by
  rw [allBlank, List.all_eq_true]

theorem not_mem_of_allBlank {s : String} {c : Char} (h : allBlank s = true) (hc : isBlank c = false) :
    c ∉ s.toList := by
  intro hm
  rw [allBlank_iff.1 h c hm] at hc
  cases hc

theorem after?_append (p r : List Char) : after? p (p ++ r) = some r := after?_eq_some_iff.2 rfl

theorem after?_eq_none_iff {p s : List Char} : after? p s = none ↔ ∀ r, s ≠ p ++ r := by
  constructor
  · rintro h r rfl
    rw [after?_append] at h
    cases h
  · intro h
    cases hr : after? p s with
    | none => rfl
    | some r => exact absurd (after?_eq_some_iff.1 hr) (h r)

theorem startsWith_eq_false_iff {p s : List Char} : startsWith s p = false ↔ after? p s = none := by
  rw [startsWith, Option.isSome_eq_false_iff, Option.isNone_iff_eq_none]

theorem breakOn?_of_after? {p s r : List Char} (h : after? p s = some r) : breakOn? p s = some ([], r) := by
  cases s with
  | nil => rw [breakOn?, h, Option.map_some]
  | cons c s => rw [breakOn?, h]

theorem contains_cons_eq_false_iff {p s : List Char} {c : Char} :
    contains p (c :: s) = false ↔ after? p (c :: s) = none ∧ contains p s = false := by
  unfold contains
  rw [breakOn?]
  cases after? p (c :: s) <;> simp

theorem after?_isSome_iff {p s : List Char} : (after? p s).isSome = true ↔ p <+: s := by
  rw [Option.isSome_iff_exists]
  exact exists_congr fun r => after?_eq_some_iff.trans eq_comm

theorem contains_iff {p s : List Char} : contains p s = true ↔ p <:+: s := by
  unfold contains
  induction s with
  | nil => rw [breakOn?, Option.isSome_map, after?_isSome_iff, List.prefix_nil, List.infix_nil]
  | cons c s ih =>
    rw [breakOn?, List.infix_cons_iff, ← after?_isSome_iff, ← ih]
    cases after? p (c :: s) <;> simp

theorem occursIn_eq_false_iff {p s : String} : occursIn p s = false ↔ ¬ p.toList <:+: s.toList := by
  rw [occursIn, ← contains_iff, Bool.not_eq_true]

/-- A mark that ends in a character it does not hold before cannot begin inside `a` and end behind it. -/
theorem after?_append_mark_eq_none {a r : List Char} (pre : List Char) {z : Char} (hz : z ∉ pre) (ha : a ≠ [])
    (h : after? (pre ++ [z]) a = none) : after? (pre ++ [z]) (a ++ (pre ++ [z] ++ r)) = none := by
  rw [after?_eq_none_iff] at h ⊢
  intro x hx
  rcases List.append_eq_append_iff.1 hx with ⟨bs, hb, hr⟩ | ⟨bs, hb, _⟩
  · -- the mark is `a` and `bs`, so the last character of `bs` stands inside the mark
    rcases List.eq_nil_or_concat bs with rfl | ⟨bs, y, rfl⟩
    · exact h [] (by simpa using hb.symm)
    · rw [List.concat_eq_append, ← List.append_assoc] at hb
      obtain ⟨hp, hy⟩ := List.append_inj' hb rfl
      cases hy
      rw [List.concat_eq_append, List.append_assoc, List.append_assoc] at hr
      rcases List.append_eq_append_iff.1 hr with ⟨cs, hc, _⟩ | ⟨cs, hc, hs⟩
      · have := congrArg List.length hp
        have := congrArg List.length hc
        have := List.length_pos_iff.2 ha
        simp only [List.length_append] at *
        omega
      · cases cs with
        | nil =>
          have := congrArg List.length hp
          have := congrArg List.length hc
          have := List.length_pos_iff.2 ha
          simp only [List.length_append, List.length_nil] at *
          omega
        | cons y cs =>
          cases hs
          exact hz (hc ▸ by simp)
  · exact h bs hb

/-- The text before the first mark, where the mark ends in a character it does not hold before. -/
theorem breakOn?_append_mark {a r : List Char} (pre : List Char) {z : Char} (hz : z ∉ pre)
    (ha : contains (pre ++ [z]) a = false) : breakOn? (pre ++ [z]) (a ++ (pre ++ [z] ++ r)) = some (a, r) := by
  induction a with
  | nil => exact breakOn?_of_after? (after?_append _ _)
  | cons c a ih =>
    obtain ⟨h, ha⟩ := contains_cons_eq_false_iff.1 ha
    have hn := after?_append_mark_eq_none (r := r) pre hz (List.cons_ne_nil c a) h
    rw [List.cons_append] at hn ⊢
    rw [breakOn?, hn, ih ha, Option.map_some]

theorem contains_singleton_eq_false_iff {c : Char} {s : List Char} : contains [c] s = false ↔ c ∉ s := by
  induction s with
  | nil => simp [contains, breakOn?, after?]
  | cons d s ih =>
    rw [contains_cons_eq_false_iff, ih]
    simp [after?]

theorem not_mem_of_breakOn?_eq_none {c : Char} {s : List Char} (h : breakOn? [c] s = none) : c ∉ s := by
  apply contains_singleton_eq_false_iff.1
  rw [contains, h]
  rfl

theorem readUntil_eq_none_iff {stop s : List Char} {hs : stop ≠ []} :
    readUntil stop hs s = none ↔ breakOn? stop s = none := by
  unfold readUntil
  split
  next none => exact iff_of_true rfl none
  next found => exact iff_of_false (Option.some_ne_none _) (Option.ne_none_iff_exists.2 ⟨_, found.symm⟩)

theorem readUntil_of_breakOn? {stop s a r : List Char} {hs : stop ≠ []} (h : breakOn? stop s = some (a, r)) :
    readUntil stop hs s = some ⟨String.ofList a, r, length_lt_of_breakOn? h hs⟩ := by
  unfold readUntil
  split
  next hn => rw [h] at hn; cases hn
  next hb =>
    rw [h] at hb
    cases hb
    rfl

/-- No mark begins in the text before the first one. -/
theorem contains_eq_false_of_breakOn? {p s a r : List Char} (hp : p ≠ []) (h : breakOn? p s = some (a, r)) :
    contains p a = false := by
  have hnil : contains p [] = false := by
    obtain ⟨c, p, rfl⟩ := List.exists_cons_of_ne_nil hp
    rfl
  induction s generalizing a with
  | nil =>
    obtain ⟨x, _, hx⟩ := Option.map_eq_some_iff.1 h
    cases hx
    exact hnil
  | cons c s ih =>
    rw [breakOn?] at h
    split at h
    · cases h
      exact hnil
    next hn =>
      obtain ⟨⟨b, x⟩, hb, hx⟩ := Option.map_eq_some_iff.1 h
      cases hx
      refine contains_cons_eq_false_iff.2 ⟨after?_eq_none_iff.2 fun y hy => ?_, ih hb⟩
      rw [after?_eq_none_iff, eq_of_breakOn? hb] at hn
      exact hn (y ++ (p ++ r)) (by rw [← List.append_assoc p, ← hy, List.cons_append])

theorem trimChars_append {cs bs : List Char} (h : ∀ c ∈ bs, isWhiteSpace c = true) :
    trimChars (cs ++ bs) = trimChars cs := by
  have hb : bs.dropWhile isWhiteSpace = [] := List.dropWhile_eq_nil_iff.2 h
  unfold trimChars
  rw [List.dropWhile_append]
  split
  next he => rw [hb, List.isEmpty_iff.1 he]
  next =>
    rw [List.reverse_append, List.dropWhile_append_of_pos]
    intro c hc
    exact h c (List.mem_reverse.1 hc)

theorem trimChars_append_left {bs cs : List Char} (h : ∀ c ∈ bs, isWhiteSpace c = true) :
    trimChars (bs ++ cs) = trimChars cs := by
  unfold trimChars
  rw [List.dropWhile_append_of_pos h]

/-- Between two characters that stay nothing is trimmed. -/
theorem trimChars_append_append {as cs bs : List Char} (ha : ¬∀ c ∈ as, isWhiteSpace c = true)
    (hb : ¬∀ c ∈ bs, isWhiteSpace c = true) :
    trimChars (as ++ (cs ++ bs)) =
      as.dropWhile isWhiteSpace ++ (cs ++ (bs.reverse.dropWhile isWhiteSpace).reverse) := by
  have front : (as.dropWhile isWhiteSpace).isEmpty = false := by
    rwa [Bool.eq_false_iff, ne_eq, List.isEmpty_iff, List.dropWhile_eq_nil_iff]
  have back : (bs.reverse.dropWhile isWhiteSpace).isEmpty = false := by
    rw [Bool.eq_false_iff, ne_eq, List.isEmpty_iff, List.dropWhile_eq_nil_iff]
    simpa using hb
  unfold trimChars
  rw [List.dropWhile_append, front, if_neg Bool.false_ne_true, List.reverse_append, List.reverse_append,
    List.append_assoc, List.dropWhile_append, back, if_neg Bool.false_ne_true]
  simp

theorem rdropWhile_trimChars (cs : List Char) : (trimChars cs).rdropWhile isWhiteSpace = trimChars cs :=
  List.rdropWhile_idempotent _ _

/-- What was its first character when the end was trimmed still is. -/
theorem dropWhile_trimChars (cs : List Char) : (trimChars cs).dropWhile isWhiteSpace = trimChars cs := by
  obtain ⟨rest, hrest⟩ := List.rdropWhile_prefix isWhiteSpace (cs.dropWhile isWhiteSpace)
  have trimmed := List.dropWhile_idempotent isWhiteSpace cs
  change trimChars cs ++ rest = _ at hrest
  rw [← hrest] at trimmed
  cases shown : trimChars cs with
  | nil => rfl
  | cons c more =>
    rw [shown, List.cons_append, List.dropWhile_cons] at trimmed
    split at trimmed
    next =>
      exact absurd (congrArg List.length trimmed) (Nat.ne_of_lt (Nat.lt_succ_of_le (List.length_dropWhile_le _ _)))
    next stop => rw [List.dropWhile_cons_of_neg stop]

/-- In front of a trimmed text nothing is trimmed but white space. -/
theorem trimChars_append_trimChars {as : List Char} (h : ∀ c ∈ as, isWhiteSpace c = false) (cs : List Char) :
    trimChars (as ++ trimChars cs) = as ++ trimChars cs := by
  have begins : (as ++ trimChars cs).dropWhile isWhiteSpace = as ++ trimChars cs := by
    cases as with
    | nil => exact dropWhile_trimChars cs
    | cons a as => exact List.dropWhile_cons_of_neg (ne_true_of_eq_false (h a List.mem_cons_self))
  have ends : (as ++ trimChars cs).rdropWhile isWhiteSpace = as ++ trimChars cs := by
    rw [List.rdropWhile_eq_self_iff]
    intro ne_nil
    by_cases empty : trimChars cs = []
    · have last : (as ++ trimChars cs).getLast ne_nil ∈ as := by
        simpa only [empty, List.append_nil] using List.getLast_mem ne_nil
      exact ne_true_of_eq_false (h _ last)
    · rw [List.getLast_append_of_ne_nil _ empty]
      exact List.rdropWhile_eq_self_iff.1 (rdropWhile_trimChars cs) empty
  rw [trimChars, begins]
  exact ends

theorem trimChars_trimChars (cs : List Char) : trimChars (trimChars cs) = trimChars cs :=
  trimChars_append_trimChars (List.forall_mem_nil _) cs

theorem trim_trim (s : String) : trim (trim s) = trim s := by
  rw [trim, trim, String.toList_ofList, trimChars_trimChars]

theorem sublist_dropWhile {p : Char → Bool} {s t : List Char} (h : s.Sublist t) :
    (s.dropWhile p).Sublist (t.dropWhile p) := by
  induction h with
  | slnil => exact .slnil
  | @cons s t a h ih =>
    by_cases ha : p a = true
    · rw [List.dropWhile_cons_of_pos ha]
      exact ih
    · rw [List.dropWhile_cons_of_neg ha]
      exact ((List.dropWhile_sublist p).trans h).cons a
  | cons_cons a h ih =>
    by_cases ha : p a = true
    · rw [List.dropWhile_cons_of_pos ha, List.dropWhile_cons_of_pos ha]
      exact ih
    · rw [List.dropWhile_cons_of_neg ha, List.dropWhile_cons_of_neg ha]
      exact h.cons_cons a

theorem trim_append (v : String) {b : String} (h : allBlank b = true) : trim (v ++ b) = trim v := by
  rw [trim, String.toList_append, trimChars_append fun c hc => isWhiteSpace_of_isBlank (allBlank_iff.1 h c hc)]
  rfl

theorem trim_of_allBlank {v : String} (h : allBlank v = true) : trim v = "" := by
  have e := trim_append "" h
  rwa [String.empty_append] at e

end Emend.Text
