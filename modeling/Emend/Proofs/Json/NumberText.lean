import Emend.Json.Number
import Emend.Proofs.Text.Finding

/-! # The text of a number

A number is read up to its end whatever stands behind it, unless that would continue it; and the decimal
digits of a natural number are read as that number.
-/

namespace Emend.Json

def endsNumber (c : Char) : Bool := !isDigit c && c != '.' && c != 'e' && c != 'E'

theorem isDigit_eq_false_of_endsNumber {c : Char} (h : endsNumber c = true) : isDigit c = false := by
  simp only [endsNumber, Bool.and_eq_true] at h
  simpa using h.1.1.1

section

variable {s t rest : List Char}

/-- The digits that `s` begins with, where none follow `s`. -/
theorem takeWhile_isDigit_append (hr : ∀ c ∈ rest.head?, endsNumber c = true) :
    (s ++ rest).takeWhile isDigit = s.takeWhile isDigit := by
  induction s with
  | nil =>
    cases rest with
    | nil => rfl
    | cons c t => simp [isDigit_eq_false_of_endsNumber (hr c rfl)]
  | cons c s ih => cases h : isDigit c <;> simp [h, ih]

theorem dropWhile_isDigit_append (hr : ∀ c ∈ rest.head?, endsNumber c = true) :
    (s ++ rest).dropWhile isDigit = s.dropWhile isDigit ++ rest := by
  induction s with
  | nil =>
    cases rest with
    | nil => rfl
    | cons c t => simp [isDigit_eq_false_of_endsNumber (hr c rfl)]
  | cons c s ih => cases h : isDigit c <;> simp [h, ih]

theorem fraction?_of_head (h : ∀ c ∈ s.head?, c ≠ '.') : fraction? s = some ([], s) := by
  unfold fraction?
  split
  next => exact absurd rfl (h '.' rfl)
  next => rfl

theorem fraction?_append {digits : List Char} (h : fraction? s = some (digits, t))
    (hr : ∀ c ∈ rest.head?, endsNumber c = true) : fraction? (s ++ rest) = some (digits, t ++ rest) := by
  cases s with
  | nil =>
    cases h
    refine fraction?_of_head fun c hc => ?_
    rintro rfl
    exact absurd (hr _ hc) (by decide)
  | cons c s =>
    by_cases hc : c = '.'
    · subst hc
      simp only [fraction?, List.cons_append, takeWhile_isDigit_append hr, dropWhile_isDigit_append hr] at h ⊢
      split at h
      next => cases h
      next hd =>
        cases h
        rw [if_neg hd]
    · rw [fraction?_of_head (Text.forall_head_cons hc)] at h
      cases h
      rw [List.cons_append, fraction?_of_head (Text.forall_head_cons hc)]

theorem exponent?_of_head (h : ∀ c ∈ s.head?, c ≠ 'e' ∧ c ≠ 'E') : exponent? s = some (0, s) := by
  unfold exponent?
  dsimp only
  split
  case h_7 => rfl
  all_goals
    obtain ⟨h₁, h₂⟩ := h _ rfl
    first | exact absurd rfl h₁ | exact absurd rfl h₂

def exponentDigits? (sign : Int) (s : List Char) : Option (Int × List Char) :=
  if (s.takeWhile isDigit).isEmpty then none else some (sign * ofDigits (s.takeWhile isDigit), s.dropWhile isDigit)

theorem exponent?_unsigned {e c : Char} (he : e = 'e' ∨ e = 'E') (h₁ : c ≠ '-') (h₂ : c ≠ '+') :
    exponent? (e :: c :: s) = exponentDigits? 1 (c :: s) := by
  unfold exponent?
  dsimp only
  split
  next e' => exact absurd (List.cons.inj (List.cons.inj e').2).1 h₁
  next e' => exact absurd (List.cons.inj (List.cons.inj e').2).1 h₁
  next e' => exact absurd (List.cons.inj (List.cons.inj e').2).1 h₂
  next e' => exact absurd (List.cons.inj (List.cons.inj e').2).1 h₂
  next e' => rw [(List.cons.inj e').2]; rfl
  next e' => rw [(List.cons.inj e').2]; rfl
  next h₃ h₄ =>
    rcases he with rfl | rfl
    · exact absurd rfl (h₃ _)
    · exact absurd rfl (h₄ _)

theorem exponentDigits?_append {sign n : Int} (h : exponentDigits? sign s = some (n, t))
    (hr : ∀ c ∈ rest.head?, endsNumber c = true) : exponentDigits? sign (s ++ rest) = some (n, t ++ rest) := by
  unfold exponentDigits? at h ⊢
  rw [takeWhile_isDigit_append hr, dropWhile_isDigit_append hr]
  split at h
  next => cases h
  next hd =>
    cases h
    rw [if_neg hd]

theorem exponent?_append {n : Int} (h : exponent? s = some (n, t)) (hr : ∀ c ∈ rest.head?, endsNumber c = true) :
    exponent? (s ++ rest) = some (n, t ++ rest) := by
  cases s with
  | nil =>
    cases h
    refine exponent?_of_head fun c hc => ⟨?_, ?_⟩ <;> rintro rfl <;> exact absurd (hr _ hc) (by decide)
  | cons e s =>
    by_cases he : e = 'e' ∨ e = 'E'
    · cases s with
      | nil => rcases he with rfl | rfl <;> cases h
      | cons c s =>
        by_cases h₁ : c = '-'
        · subst h₁
          rcases he with rfl | rfl <;> exact exponentDigits?_append (s := s) h hr
        by_cases h₂ : c = '+'
        · subst h₂
          rcases he with rfl | rfl <;> exact exponentDigits?_append (s := s) h hr
        rw [exponent?_unsigned he h₁ h₂] at h
        rw [List.cons_append, List.cons_append, exponent?_unsigned he h₁ h₂]
        exact exponentDigits?_append h hr
    · rw [exponent?_of_head (Text.forall_head_cons (not_or.1 he))] at h
      cases h
      rw [List.cons_append, exponent?_of_head (Text.forall_head_cons (not_or.1 he))]

theorem unsigned?_append {negative : Bool} {j : Json} (h : unsigned? negative s = some (j, []))
    (hr : ∀ c ∈ rest.head?, endsNumber c = true) : unsigned? negative (s ++ rest) = some (j, rest) := by
  unfold unsigned? at h ⊢
  simp only [takeWhile_isDigit_append hr, dropWhile_isDigit_append hr]
  dsimp only at h
  split at h
  next => cases h
  next hw =>
    rw [if_neg hw]
    obtain ⟨⟨fraction, r₁⟩, hf, h⟩ := Option.bind_eq_some_iff.1 h
    obtain ⟨⟨exponent, r₂⟩, he, h⟩ := Option.bind_eq_some_iff.1 h
    rw [fraction?_append hf hr]
    dsimp only [Option.bind_eq_bind, Option.bind_some]
    rw [exponent?_append he hr]
    simp only [Option.bind_some, List.length_append, Nat.add_right_cancel_iff]
    split at h
    next hl =>
      rw [if_pos hl]
      simp only [pure, Option.some.injEq, Prod.mk.injEq] at h ⊢
      rw [h.2]
      exact ⟨h.1, rfl⟩
    next hl =>
      rw [if_neg hl]
      simp only [pure, Option.some.injEq, Prod.mk.injEq] at h ⊢
      rw [h.2]
      exact ⟨h.1, rfl⟩

theorem number?_append {j : Json} (h : number? s = some (j, [])) (hr : ∀ c ∈ rest.head?, endsNumber c = true) :
    number? (s ++ rest) = some (j, rest) := by
  cases s with
  | nil => cases h
  | cons c s =>
    by_cases hc : c = '-'
    · subst hc
      exact unsigned?_append (s := s) h hr
    · have hn : ∀ t, number? (c :: t) = unsigned? false (c :: t) := fun t => by
        unfold number?
        split
        next e => exact absurd (List.cons.inj e).1 hc
        next => rfl
      rw [hn] at h
      rw [List.cons_append, hn]
      exact unsigned?_append h hr

end

def IsDigits (s : List Char) : Prop := s ≠ [] ∧ ∀ c ∈ s, isDigit c = true

/-- Digits without a zero in front that they could do without. -/
def IsWhole (s : List Char) : Prop := IsDigits s ∧ (s.head? = some '0' → s.length = 1)

def IsFraction (s : List Char) : Prop := s = [] ∨ ∃ ds, s = '.' :: ds ∧ IsDigits ds

def IsExponent (s : List Char) : Prop :=
  s = [] ∨ ∃ e sign ds, s = e :: (sign ++ ds) ∧ (e = 'e' ∨ e = 'E') ∧ (sign = [] ∨ sign = ['-'] ∨ sign = ['+']) ∧
    IsDigits ds

/-- A number as the standard has it. -/
inductive IsNumber : List Char → Prop
  | mk {sign whole fraction exponent : List Char} (hs : sign = [] ∨ sign = ['-']) (hw : IsWhole whole)
    (hf : IsFraction fraction) (he : IsExponent exponent) : IsNumber (sign ++ (whole ++ (fraction ++ exponent)))

/-- The digits that a text begins with. -/
theorem isDigits_takeWhile {s : List Char} (h : ¬(s.takeWhile isDigit).isEmpty = true) :
    IsDigits (s.takeWhile isDigit) :=
  ⟨fun e => h (by rw [e]; rfl), fun _ hc => List.mem_takeWhile_imp hc⟩

theorem exists_isFraction {s t digits : List Char} (h : fraction? s = some (digits, t)) :
    ∃ f, IsFraction f ∧ s = f ++ t := by
  unfold fraction? at h
  split at h
  next r =>
    split at h
    · cases h
    next hd =>
      cases h
      refine ⟨_, .inr ⟨_, rfl, isDigits_takeWhile hd⟩, ?_⟩
      rw [List.cons_append, List.takeWhile_append_dropWhile]
  next =>
    cases h
    exact ⟨[], .inl rfl, rfl⟩

theorem exists_isDigits {s t : List Char} {sign n : Int} (h : exponentDigits? sign s = some (n, t)) :
    ∃ ds, IsDigits ds ∧ s = ds ++ t := by
  unfold exponentDigits? at h
  split at h
  · cases h
  next hd =>
    cases h
    exact ⟨_, isDigits_takeWhile hd, List.takeWhile_append_dropWhile.symm⟩

theorem exists_isExponent {s t : List Char} {n : Int} (h : exponent? s = some (n, t)) :
    ∃ e, IsExponent e ∧ s = e ++ t := by
  -- whatever the sign, what comes behind it is digits
  have signed (sign : List Char) {e : Char} {r : List Char} {factor : Int} (he : e = 'e' ∨ e = 'E')
      (hs : sign = [] ∨ sign = ['-'] ∨ sign = ['+']) (hd : exponentDigits? factor r = some (n, t)) :
      ∃ x, IsExponent x ∧ e :: (sign ++ r) = x ++ t := by
    obtain ⟨ds, digits, rfl⟩ := exists_isDigits hd
    exact ⟨_, .inr ⟨e, sign, ds, rfl, he, hs, digits⟩, by rw [List.cons_append, List.append_assoc]⟩
  cases s with
  | nil =>
    cases h
    exact ⟨[], .inl rfl, rfl⟩
  | cons e s =>
    by_cases he : e = 'e' ∨ e = 'E'
    · cases s with
      | nil => rcases he with rfl | rfl <;> cases h
      | cons c s =>
        by_cases h₁ : c = '-'
        · subst h₁
          have hd : exponentDigits? (-1) s = some (n, t) := by rcases he with rfl | rfl <;> exact h
          exact signed ['-'] he (.inr (.inl rfl)) hd
        by_cases h₂ : c = '+'
        · subst h₂
          have hd : exponentDigits? 1 s = some (n, t) := by rcases he with rfl | rfl <;> exact h
          exact signed ['+'] he (.inr (.inr rfl)) hd
        rw [exponent?_unsigned he h₁ h₂] at h
        exact signed [] he (.inl rfl) h
    · rw [exponent?_of_head (Text.forall_head_cons (not_or.1 he))] at h
      cases h
      exact ⟨[], .inl rfl, rfl⟩

/-- Numbers are integers or decimals. -/
inductive IsNumeric : Json → Prop
  | int (n : Int) : IsNumeric (.int n)
  | real (d : Decimal) : IsNumeric (.real d)

theorem isNumeric_ofParts (negative : Bool) (whole fraction : List Char) (exponent : Int) :
    IsNumeric (ofParts negative whole fraction exponent) := by
  unfold ofParts
  dsimp only
  split <;> exact .real _

theorem isNumeric_ofWhole (negative : Bool) (whole : List Char) : IsNumeric (ofWhole negative whole) := by
  have key (n : Int) : IsNumeric ((ofInt? n).getD (ofParts negative whole [] 0)) := by
    unfold ofInt?
    split
    · exact .int n
    · exact isNumeric_ofParts _ _ _ _
  unfold ofWhole
  dsimp only
  split
  · split
    · exact isNumeric_ofParts _ _ _ _
    · exact key _
  · exact key _

theorem exists_of_unsigned? {negative : Bool} {s r : List Char} {j : Json} (h : unsigned? negative s = some (j, r)) :
    IsNumeric j ∧ ∃ whole fraction exponent, IsWhole whole ∧ IsFraction fraction ∧ IsExponent exponent ∧
      s = whole ++ (fraction ++ (exponent ++ r)) := by
  unfold unsigned? at h
  dsimp only at h
  split at h
  · cases h
  next hw =>
  rw [Bool.or_eq_true, not_or] at hw
  have whole : IsWhole (s.takeWhile isDigit) := by
    refine ⟨isDigits_takeWhile hw.1, fun hz => ?_⟩
    have some_digit := List.length_pos_iff.2 (isDigits_takeWhile hw.1).1
    have few : ¬1 < (s.takeWhile isDigit).length := by simpa [hz] using hw.2
    omega
  obtain ⟨⟨fraction, r₁⟩, hf, h⟩ := Option.bind_eq_some_iff.1 h
  obtain ⟨⟨exponent, r₂⟩, he, h⟩ := Option.bind_eq_some_iff.1 h
  dsimp only at h
  split at h
  · cases h
    refine ⟨isNumeric_ofWhole _ _, _, [], [], whole, .inl rfl, .inl rfl, ?_⟩
    exact List.takeWhile_append_dropWhile.symm
  · cases h
    obtain ⟨f, isFraction, hr⟩ := exists_isFraction hf
    obtain ⟨e, isExponent, hr₁⟩ := exists_isExponent he
    refine ⟨isNumeric_ofParts _ _ _ _, _, f, e, whole, isFraction, isExponent, ?_⟩
    rw [← hr₁, ← hr, List.takeWhile_append_dropWhile]

/-- What is read as a number is one. -/
theorem exists_of_number? {s r : List Char} {j : Json} (h : number? s = some (j, r)) :
    IsNumeric j ∧ ∃ t, IsNumber t ∧ s = t ++ r := by
  unfold number? at h
  split at h
  · obtain ⟨numeric, whole, fraction, exponent, hw, hf, he, rfl⟩ := exists_of_unsigned? h
    exact ⟨numeric, _, @IsNumber.mk ['-'] _ _ _ (.inr rfl) hw hf he, by simp⟩
  · obtain ⟨numeric, whole, fraction, exponent, hw, hf, he, rfl⟩ := exists_of_unsigned? h
    exact ⟨numeric, _, @IsNumber.mk [] _ _ _ (.inl rfl) hw hf he, by simp⟩

def isNumberChar (c : Char) : Bool := isDigit c || "+-.eE".toList.contains c

theorem isNumberChar_of_isDigits {s : List Char} (h : IsDigits s) : ∀ c ∈ s, isNumberChar c = true := by
  intro c hc
  rw [isNumberChar, h.2 c hc, Bool.true_or]

theorem isNumberChar_of_isNumber {s : List Char} (h : IsNumber s) : ∀ c ∈ s, isNumberChar c = true := by
  obtain ⟨hs, hw, hf, he⟩ := h
  simp only [List.forall_mem_append]
  refine ⟨?_, isNumberChar_of_isDigits hw.1, ?_, ?_⟩
  · obtain rfl | rfl := hs
    · exact List.forall_mem_nil _
    · exact List.forall_mem_singleton.2 rfl
  · obtain rfl | ⟨ds, rfl, digits⟩ := hf
    · exact List.forall_mem_nil _
    · exact List.forall_mem_cons.2 ⟨by decide, isNumberChar_of_isDigits digits⟩
  · obtain rfl | ⟨e, sign, ds, rfl, he, hs, digits⟩ := he
    · exact List.forall_mem_nil _
    · refine List.forall_mem_cons.2 ⟨?_, List.forall_mem_append.2 ⟨?_, isNumberChar_of_isDigits digits⟩⟩
      · rcases he with rfl | rfl <;> decide
      · obtain rfl | rfl | rfl := hs
        · exact List.forall_mem_nil _
        · exact List.forall_mem_singleton.2 rfl
        · exact List.forall_mem_singleton.2 rfl

/-- A number begins with a digit or a minus sign. -/
theorem exists_head_of_number? {s : List Char} {x : Json × List Char} (h : number? s = some x) :
    ∃ c t, s = c :: t ∧ (isDigit c = true ∨ c = '-') := by
  cases s with
  | nil => cases h
  | cons c s =>
    refine ⟨c, s, rfl, ?_⟩
    cases hd : isDigit c with
    | true => exact .inl rfl
    | false =>
      right
      by_contra hc
      have hn : number? (c :: s) = unsigned? false (c :: s) := by
        unfold number?
        split
        next e => exact absurd (List.cons.inj e).1 hc
        next => rfl
      rw [hn] at h
      simp [unsigned?, hd] at h

theorem isDigit_of_mem_toDigits {n : Nat} {c : Char} (h : c ∈ Nat.toDigits 10 n) : isDigit c = true := by
  have hd := Nat.isDigit_of_mem_toDigits (by decide) (by decide) h
  rw [Char.isDigit, Bool.and_eq_true] at hd
  rw [isDigit, Bool.and_eq_true]
  exact hd

theorem ofDigits_toDigits (n : Nat) : ofDigits (Nat.toDigits 10 n) = n := by
  have h := @Nat.ofDigitChars_ten_toDigits n
  rw [Nat.ofDigitChars_eq_foldl] at h
  refine Eq.trans ?_ h
  rw [ofDigits]
  congr 1
  funext m c
  rw [Nat.mul_comm m 10]
  rfl

/-- Only zero is written with a zero in front. -/
theorem head?_toDigits_ne_zero {n : Nat} (h : 0 < n) : (Nat.toDigits 10 n).head? ≠ some '0' := by
  induction n using Nat.strongRecOn with
  | ind n ih =>
    rcases Nat.lt_or_ge n 10 with hn | hn
    · have hz : ∀ m < 10, 0 < m → [m.digitChar].head? ≠ some '0' := by decide
      rw [Nat.toDigits_of_lt_base hn]
      exact hz n hn h
    · have hz := ih (n / 10) (by omega) (by omega)
      rw [Nat.toDigits_of_base_le (by decide) hn]
      cases e : Nat.toDigits 10 (n / 10) with
      | nil => exact absurd e Nat.toDigits_ne_nil
      | cons c s =>
        rw [e] at hz
        exact hz

theorem not_leading_zero (n : Nat) :
    ((Nat.toDigits 10 n).isEmpty || ((Nat.toDigits 10 n).head? == some '0' && (Nat.toDigits 10 n).length > 1)) =
      false := by
  have he : (Nat.toDigits 10 n).isEmpty = false := by
    rw [List.isEmpty_eq_false_iff]
    exact Nat.toDigits_ne_nil
  rw [he, Bool.false_or]
  rcases Nat.eq_zero_or_pos n with rfl | hn
  · rfl
  · rw [beq_eq_false_iff_ne.2 (head?_toDigits_ne_zero hn), Bool.false_and]

/-- A natural number of 64 bits is read from its digits. -/
theorem number?_toDigits {n : Nat} (h : n ≤ 0xffffffffffffffff) : number? (Nat.toDigits 10 n) = some (.int n, []) := by
  have hd : ∀ c ∈ Nat.toDigits 10 n, isDigit c = true := fun c hc => isDigit_of_mem_toDigits hc
  have ht : (Nat.toDigits 10 n).takeWhile isDigit = Nat.toDigits 10 n := by
    simpa using Text.takeWhile_append_stop (s := []) hd (by simp)
  have hr : (Nat.toDigits 10 n).dropWhile isDigit = [] := by
    simpa using Text.dropWhile_append_stop (s := []) hd (by simp)
  have hu : unsigned? false (Nat.toDigits 10 n) = some (ofWhole false (Nat.toDigits 10 n), []) := by
    unfold unsigned?
    simp only [ht, hr, not_leading_zero]
    rfl
  have hw : ofWhole false (Nat.toDigits 10 n) = .int n := by
    simp only [ofWhole, ofDigits_toDigits, Bool.false_eq_true, if_false, ofInt?]
    rw [if_pos (by omega), Option.getD_some]
  unfold number?
  split
  next e => exact absurd (hd '-' (by rw [e]; exact List.mem_cons_self)) (by decide)
  next => rw [hu, hw]

end Emend.Json
