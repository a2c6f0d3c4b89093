import Emend.Proofs.Json.Grammar

/-! # The standard's grammar of JSON text

`IsText s j` says that `s` is a text of a value with the arrays and objects of `j`. Of strings and numbers it says how
they may be written and not which ones they are, so that it goes further than what is read: half of a surrogate pair
may stand alone. Whatever is read is such a text (`isText_of_parseChars?`).
-/

namespace Emend.Json

open Text (Step)

inductive IsString : List Char → Prop
  | nil : IsString []
  | plain {c : Char} {s : List Char} (h : 32 ≤ c.toNat ∧ c ≠ '"' ∧ c ≠ '\\') (hs : IsString s) : IsString (c :: s)
  | escape {e : Char} {s : List Char} (h : e ∈ "\"\\/bfnrt".toList) (hs : IsString s) : IsString ('\\' :: e :: s)
  | unicode {a b c d : Char} {s : List Char} (h : ∀ x ∈ [a, b, c, d], (hexValue? x).isSome = true) (hs : IsString s) :
    IsString ('\\' :: 'u' :: a :: b :: c :: d :: s)

inductive IsKey : List Char → Prop
  | mk {a k b c : List Char} (ha : IsSpaces a) (hk : IsString k) (hb : IsSpaces b) (hc : IsSpaces c) :
    IsKey (a ++ '"' :: (k ++ '"' :: (b ++ ':' :: c)))

mutual

/-- A text of a value, without blanks around it. -/
inductive Spells : List Char → Json → Prop
  | null : Spells "null".toList .null
  | bool (b : Bool) : Spells (if b then "true" else "false").toList (.bool b)
  | number {s : List Char} {j : Json} (h : IsNumber s) (hj : IsNumeric j) : Spells s j
  | string {s : List Char} (h : IsString s) (x : String) : Spells ('"' :: (s ++ ['"'])) (.string x)
  | array {s : List Char} {items : List Json} (h : SpellsItems s items) : Spells ('[' :: (s ++ [']'])) (.array items)
  | object {s : List Char} {fields : List (String × Json)} (h : SpellsFields s fields) :
    Spells ('{' :: (s ++ ['}'])) (.object fields)

/-- The text between the brackets of an array. -/
inductive SpellsItems : List Char → List Json → Prop
  | none {b : List Char} (hb : IsSpaces b) : SpellsItems b []
  | last {a s b : List Char} {j : Json} (ha : IsSpaces a) (h : Spells s j) (hb : IsSpaces b) :
    SpellsItems (a ++ (s ++ b)) [j]
  | more {a s b t : List Char} {j : Json} {js : List Json} (ha : IsSpaces a) (h : Spells s j) (hb : IsSpaces b)
    (hj : js ≠ []) (ht : SpellsItems t js) : SpellsItems (a ++ (s ++ (b ++ ',' :: t))) (j :: js)

inductive SpellsFields : List Char → List (String × Json) → Prop
  | none {b : List Char} (hb : IsSpaces b) : SpellsFields b []
  | last {k s b : List Char} {j : Json} (key : String) (hk : IsKey k) (h : Spells s j) (hb : IsSpaces b) :
    SpellsFields (k ++ (s ++ b)) [(key, j)]
  | more {k s b t : List Char} {j : Json} {fields : List (String × Json)} (key : String) (hk : IsKey k)
    (h : Spells s j) (hb : IsSpaces b) (hf : fields ≠ []) (ht : SpellsFields t fields) :
    SpellsFields (k ++ (s ++ (b ++ ',' :: t))) ((key, j) :: fields)

end

def IsText (s : List Char) (j : Json) : Prop :=
  ∃ a t b, IsSpaces a ∧ Spells t j ∧ IsSpaces b ∧ s = a ++ (t ++ b)

theorem exists_spaces {s t : List Char} (h : skipSpace s = t) : ∃ a, IsSpaces a ∧ s = a ++ t :=
  ⟨s.takeWhile isSpace, fun _ hc => List.mem_takeWhile_imp hc, by rw [← h, skipSpace, List.takeWhile_append_dropWhile]⟩

theorem length_lt_of_skipSpace {s t : List Char} {c : Char} (h : skipSpace s = c :: t) : t.length < s.length := by
  have le := length_skipSpace_le s
  rw [h, List.length_cons] at le
  exact le

theorem isSome_hexValue?_of_hex4? {a b c d : Char} {n : Nat} (h : hex4? a b c d = some n) :
    ∀ x ∈ [a, b, c, d], (hexValue? x).isSome = true := by
  obtain ⟨_, ha, h⟩ := Option.bind_eq_some_iff.1 h
  obtain ⟨_, hb, h⟩ := Option.bind_eq_some_iff.1 h
  obtain ⟨_, hc, h⟩ := Option.bind_eq_some_iff.1 h
  obtain ⟨_, hd, _⟩ := Option.bind_eq_some_iff.1 h
  simp [ha, hb, hc, hd]

theorem mem_of_simpleEscape? {e c : Char} (h : simpleEscape? e = some c) : e ∈ "\"\\/bfnrt".toList := by
  unfold simpleEscape? at h
  split at h
  case h_9 => cases h
  all_goals decide

theorem exists_isString {s cs r : List Char} (h : readChars s = some (cs, r)) :
    ∃ t, IsString t ∧ s = t ++ '"' :: r := by
  fun_induction readChars s generalizing cs r with
  | case1 | case3 | case4 | case6 | case7 | case8 | case10 | case12 => cases h
  | case2 s =>
    cases h
    exact ⟨[], .nil, rfl⟩
  | case5 a b c d hi hhi hr a' b' c' d' s lo hlo hl ih =>
    obtain ⟨⟨cs, r⟩, h, e⟩ := Option.map_eq_some_iff.1 h
    cases e
    obtain ⟨t, ht, rfl⟩ := ih h
    exact ⟨_, .unicode (isSome_hexValue?_of_hex4? hhi) (.unicode (isSome_hexValue?_of_hex4? hlo) ht), rfl⟩
  | case9 a b c d s n hn _ _ ih =>
    obtain ⟨⟨cs, r⟩, h, e⟩ := Option.map_eq_some_iff.1 h
    cases e
    obtain ⟨t, ht, rfl⟩ := ih h
    exact ⟨_, .unicode (isSome_hexValue?_of_hex4? hn) ht, rfl⟩
  | case11 e s _ c hc ih =>
    obtain ⟨⟨cs, r⟩, h, e⟩ := Option.map_eq_some_iff.1 h
    cases e
    obtain ⟨t, ht, rfl⟩ := ih h
    exact ⟨_, .escape (mem_of_simpleEscape? hc) ht, rfl⟩
  | case13 c s hq _ _ hc ih =>
    obtain ⟨⟨cs, r⟩, h, e⟩ := Option.map_eq_some_iff.1 h
    cases e
    obtain ⟨t, ht, rfl⟩ := ih h
    obtain ⟨hl, hb⟩ := not_or.1 hc
    exact ⟨_, .plain ⟨Nat.not_lt.1 hl, hq, hb⟩ ht, rfl⟩

theorem exists_of_readString {s : List Char} {x : Step String s} (h : readString s = some x) :
    ∃ t, IsString t ∧ s = t ++ '"' :: x.rest := by
  unfold readString at h
  split at h
  · cases h
  next hr =>
    cases h
    exact exists_isString hr

theorem exists_of_readScalar {s : List Char} {x : Step Json s} (h : readScalar s = some x) :
    ∃ t, Spells t x.value ∧ s = t ++ x.rest := by
  unfold readScalar at h
  split at h
  next hs =>
    cases h
    exact ⟨_, .null, Text.after?_eq_some_iff.1 hs⟩
  split at h
  next hs =>
    cases h
    exact ⟨_, .bool true, Text.after?_eq_some_iff.1 hs⟩
  split at h
  next hs =>
    cases h
    exact ⟨_, .bool false, Text.after?_eq_some_iff.1 hs⟩
  split at h
  next hn =>
    split at h
    · cases h
      obtain ⟨numeric, t, ht, hs⟩ := exists_of_number? hn
      exact ⟨t, .number ht numeric, hs⟩
    · cases h
  · cases h

mutual

/-- A value and the blanks in front of it. -/
theorem exists_of_readValue {s : List Char} {x : Step Json s} (h : readValue s = some x) :
    ∃ a t, IsSpaces a ∧ Spells t x.value ∧ s = a ++ (t ++ x.rest) := by
  unfold readValue at h
  split at h
  next r hs =>
    obtain ⟨a, ha, hs⟩ := exists_spaces hs
    obtain ⟨y, hy, h⟩ := Option.bind_eq_some_iff.1 h
    cases h
    obtain ⟨t, ht, hr⟩ := exists_of_readString hy
    exact ⟨a, _, ha, .string ht _, by simp [hs, hr]⟩
  next r hs =>
    have shorter := length_lt_of_skipSpace hs
    obtain ⟨a, ha, hs⟩ := exists_spaces hs
    dsimp only at h
    split at h
    next r' hr =>
      cases h
      obtain ⟨b, hb, hr⟩ := exists_spaces hr
      exact ⟨a, _, ha, .array (.none hb), by simp [hs, hr]⟩
    next =>
      obtain ⟨y, hy, h⟩ := Option.bind_eq_some_iff.1 h
      cases h
      obtain ⟨t, items, _, ht, hv, hr⟩ := exists_of_readItems hy
      obtain rfl : y.value = items := hv
      exact ⟨a, _, ha, .array ht, by simp [hs, hr, Step.widen, Step.map]⟩
  next r hs =>
    have shorter := length_lt_of_skipSpace hs
    obtain ⟨a, ha, hs⟩ := exists_spaces hs
    dsimp only at h
    split at h
    next r' hr =>
      cases h
      obtain ⟨b, hb, hr⟩ := exists_spaces hr
      exact ⟨a, _, ha, .object (.none hb), by simp [hs, hr]⟩
    next =>
      obtain ⟨y, hy, h⟩ := Option.bind_eq_some_iff.1 h
      cases h
      obtain ⟨t, fields, _, ht, hv, hr⟩ := exists_of_readFields hy
      obtain rfl : y.value = fields := hv
      exact ⟨a, _, ha, .object ht, by simp [hs, hr, Step.widen, Step.map]⟩
  next =>
    obtain ⟨a, ha, hs⟩ := exists_spaces (s := s) rfl
    obtain ⟨y, hy, h⟩ := Option.bind_eq_some_iff.1 h
    cases h
    obtain ⟨t, ht, hr⟩ := exists_of_readScalar hy
    exact ⟨a, t, ha, ht, hs.trans (congrArg (a ++ ·) hr)⟩
termination_by (s.length, 0)

theorem exists_of_readItems {read : List Json} {s : List Char} {x : Step (List Json) s}
    (h : readItems read s = some x) :
    ∃ t items, items ≠ [] ∧ SpellsItems t items ∧ x.value = read.reverse ++ items ∧ s = t ++ ']' :: x.rest := by
  unfold readItems at h
  split at h
  · cases h
  next y hy =>
  obtain ⟨a, t, ha, ht, hs⟩ := exists_of_readValue hy
  dsimp only at h
  split at h
  next r hr =>
    have shorter : r.length < s.length := (length_lt_of_skipSpace hr).trans y.shorter
    obtain ⟨b, hb, hr⟩ := exists_spaces hr
    obtain ⟨z, hz, h⟩ := Option.map_eq_some_iff.1 h
    cases h
    obtain ⟨u, items, some_item, hu, hv, hr'⟩ := exists_of_readItems hz
    refine ⟨_, y.value :: items, List.cons_ne_nil _ _, .more ha ht hb some_item hu, ?_, ?_⟩
    · simp [hv, Step.widen]
    · simp [hs, hr, hr', Step.widen]
  next r hr =>
    cases h
    obtain ⟨b, hb, hr⟩ := exists_spaces hr
    exact ⟨_, [y.value], List.cons_ne_nil _ _, .last ha ht hb, List.reverse_cons, by simp [hs, hr]⟩
  · cases h
termination_by (s.length, 1)

theorem exists_of_readFields {read : List (String × Json)} {s : List Char} {x : Step (List (String × Json)) s}
    (h : readFields read s = some x) :
    ∃ t fields, fields ≠ [] ∧ SpellsFields t fields ∧ x.value = read.reverse ++ fields ∧ s = t ++ '}' :: x.rest := by
  unfold readFields at h
  split at h
  case h_2 => cases h
  next r hs =>
  have shorter := length_lt_of_skipSpace hs
  obtain ⟨a, ha, hs⟩ := exists_spaces hs
  dsimp only at h
  split at h
  · cases h
  next key hk =>
  obtain ⟨k, isString, hr⟩ := exists_of_readString hk
  split at h
  case h_2 => cases h
  next r₁ hc =>
  have shorter₁ : r₁.length < s.length := (length_lt_of_skipSpace hc).trans (key.shorter.trans shorter)
  obtain ⟨b, hb, hc⟩ := exists_spaces hc
  split at h
  · cases h
  next y hy =>
  obtain ⟨c, t, hspace, ht, hr₁⟩ := exists_of_readValue hy
  -- the key with the blanks around it is one part of the grammar
  have isKey := IsKey.mk ha isString hb hspace
  split at h
  next r₂ hr₂ =>
    have shorter₂ : r₂.length < s.length := (length_lt_of_skipSpace hr₂).trans (y.shorter.trans shorter₁)
    obtain ⟨d, hd, hr₂⟩ := exists_spaces hr₂
    obtain ⟨z, hz, h⟩ := Option.map_eq_some_iff.1 h
    cases h
    obtain ⟨u, fields, some_field, hu, hv, hr₃⟩ := exists_of_readFields hz
    refine ⟨_, (key.value, y.value) :: fields, List.cons_ne_nil _ _, .more key.value isKey ht hd some_field hu, ?_, ?_⟩
    · simp [hv, Step.widen]
    · simp [hs, hr, hc, hr₁, hr₂, hr₃, Step.widen]
  next r₂ hr₂ =>
    cases h
    obtain ⟨d, hd, hr₂⟩ := exists_spaces hr₂
    exact ⟨_, [(key.value, y.value)], List.cons_ne_nil _ _, .last key.value isKey ht hd, List.reverse_cons,
      by simp [hs, hr, hc, hr₁, hr₂]⟩
  · cases h
termination_by (s.length, 1)

end

/-- Whatever is read is a text of the standard's grammar. -/
theorem isText_of_parseChars? {s : List Char} {j : Json} (h : parseChars? s = some j) : IsText s j := by
  obtain ⟨x, hx, h⟩ := Option.bind_eq_some_iff.1 h
  split at h
  next hb =>
    cases h
    obtain ⟨a, t, ha, ht, hs⟩ := exists_of_readValue hx
    obtain ⟨b, hb, hr⟩ := exists_spaces (List.isEmpty_iff.1 hb)
    rw [List.append_nil] at hr
    exact ⟨a, t, b, ha, ht, hb, by rw [hs, hr]⟩
  · cases h

end Emend.Json
