import Emend.Json.Reader
import Emend.Proofs.Json.NumberText

/-! # The grammar of JSON text

`Writes s j` says that `s` is a text of the value `j`, without blanks around it. The reader takes from the
front of a text whatever the grammar derives there, as far as nothing behind it continues a number.
-/

namespace Emend.Json

open Text (Step)

def IsSpaces (s : List Char) : Prop := ∀ c ∈ s, isSpace c = true

instance (s : List Char) : Decidable (IsSpaces s) := List.decidableBAll _ s

/-- The text between the quotes of a string, and the characters it stands for. -/
inductive WritesChars : List Char → List Char → Prop
  | nil : WritesChars [] []
  | plain {c : Char} {s cs : List Char} (h : 32 ≤ c.toNat ∧ c ≠ '"' ∧ c ≠ '\\') (hs : WritesChars s cs) :
    WritesChars (c :: s) (c :: cs)
  | escape {e c : Char} {s cs : List Char} (h : simpleEscape? e = some c) (hs : WritesChars s cs) :
    WritesChars ('\\' :: e :: s) (c :: cs)
  | unicode {a b c d : Char} {n : Nat} {s cs : List Char} (h : hex4? a b c d = some n)
    (hn : n < 0xD800 ∨ 0xE000 ≤ n) (hs : WritesChars s cs) :
    WritesChars ('\\' :: 'u' :: a :: b :: c :: d :: s) (Char.ofNat n :: cs)
  | pair {a b c d a' b' c' d' : Char} {hi lo : Nat} {s cs : List Char} (h : hex4? a b c d = some hi)
    (h' : hex4? a' b' c' d' = some lo) (hh : 0xD800 ≤ hi ∧ hi < 0xDC00) (hl : 0xDC00 ≤ lo ∧ lo < 0xE000)
    (hs : WritesChars s cs) :
    WritesChars ('\\' :: 'u' :: a :: b :: c :: d :: '\\' :: 'u' :: a' :: b' :: c' :: d' :: s)
      (Char.ofNat (0x10000 + (hi - 0xD800) * 0x400 + (lo - 0xDC00)) :: cs)

/-- A key, the colon behind it, and the blanks around both. -/
inductive WritesKey : List Char → String → Prop
  | mk {a k b c cs : List Char} (ha : IsSpaces a) (hk : WritesChars k cs) (hb : IsSpaces b) (hc : IsSpaces c) :
    WritesKey (a ++ '"' :: (k ++ '"' :: (b ++ ':' :: c))) (String.ofList cs)

mutual

/-- A text of a value. -/
inductive Writes : List Char → Json → Prop
  | null : Writes "null".toList .null
  | bool (b : Bool) : Writes (if b then "true" else "false").toList (.bool b)
  | number {s : List Char} {j : Json} (h : number? s = some (j, [])) : Writes s j
  | string {s cs : List Char} (h : WritesChars s cs) : Writes ('"' :: (s ++ ['"'])) (.string (String.ofList cs))
  | array {s : List Char} {items : List Json} (h : WritesItems s items) : Writes ('[' :: (s ++ [']'])) (.array items)
  | object {s : List Char} {fields : List (String × Json)} (h : WritesFields s fields) :
    Writes ('{' :: (s ++ ['}'])) (.object fields)

/-- The text between the brackets of an array. -/
inductive WritesItems : List Char → List Json → Prop
  | none {b : List Char} (hb : IsSpaces b) : WritesItems b []
  | last {a s b : List Char} {j : Json} (ha : IsSpaces a) (h : Writes s j) (hb : IsSpaces b) :
    WritesItems (a ++ (s ++ b)) [j]
  | more {a s b t : List Char} {j : Json} {js : List Json} (ha : IsSpaces a) (h : Writes s j) (hb : IsSpaces b)
    (hj : js ≠ []) (ht : WritesItems t js) : WritesItems (a ++ (s ++ (b ++ ',' :: t))) (j :: js)

inductive WritesFields : List Char → List (String × Json) → Prop
  | none {b : List Char} (hb : IsSpaces b) : WritesFields b []
  | last {k s b : List Char} {key : String} {j : Json} (hk : WritesKey k key) (h : Writes s j) (hb : IsSpaces b) :
    WritesFields (k ++ (s ++ b)) [(key, j)]
  | more {k s b t : List Char} {key : String} {j : Json} {fields : List (String × Json)} (hk : WritesKey k key)
    (h : Writes s j) (hb : IsSpaces b) (hf : fields ≠ []) (ht : WritesFields t fields) :
    WritesFields (k ++ (s ++ (b ++ ',' :: t))) ((key, j) :: fields)

end

theorem readChars_plain {c : Char} (h : 32 ≤ c.toNat ∧ c ≠ '"' ∧ c ≠ '\\') (s : List Char) :
    readChars (c :: s) = (readChars s).map fun (cs, r) => (c :: cs, r) := by
  obtain ⟨hc, hq, hb⟩ := h
  rw [readChars.eq_def]
  split
  next e => cases e
  next e => exact absurd (List.cons.inj e).1 hq
  next e => exact absurd (List.cons.inj e).1 hb
  next e => exact absurd (List.cons.inj e).1 hb
  next e =>
    cases e
    rw [if_neg (not_or.2 ⟨Nat.not_lt.2 hc, hb⟩)]

theorem readChars_escape {e c : Char} (h : simpleEscape? e = some c) (s : List Char) :
    readChars ('\\' :: e :: s) = (readChars s).map fun (cs, r) => (c :: cs, r) := by
  rw [readChars.eq_def]
  split
  next e => cases e
  next e => cases e
  next e =>
    cases e
    cases h
  next e =>
    cases e
    rw [h]
  next h₁ h₂ e =>
    cases e
    exact (h₂ _ _ rfl rfl).elim

theorem readChars_unicode {a b c d : Char} {n : Nat} (h : hex4? a b c d = some n) (hn : n < 0xD800 ∨ 0xE000 ≤ n)
    (s : List Char) : readChars ('\\' :: 'u' :: a :: b :: c :: d :: s) =
      (readChars s).map fun (cs, r) => (Char.ofNat n :: cs, r) := by
  rw [readChars, h]
  dsimp only
  rw [if_neg (by omega), if_neg (by omega)]

theorem readChars_pair {a b c d a' b' c' d' : Char} {hi lo : Nat} (h : hex4? a b c d = some hi)
    (h' : hex4? a' b' c' d' = some lo) (hh : 0xD800 ≤ hi ∧ hi < 0xDC00) (hl : 0xDC00 ≤ lo ∧ lo < 0xE000)
    (s : List Char) : readChars ('\\' :: 'u' :: a :: b :: c :: d :: '\\' :: 'u' :: a' :: b' :: c' :: d' :: s) =
      (readChars s).map fun (cs, r) =>
        (Char.ofNat (0x10000 + (hi - 0xD800) * 0x400 + (lo - 0xDC00)) :: cs, r) := by
  rw [readChars, h]
  simp only [if_pos hh, h', if_pos hl]

theorem readChars_of_writesChars {s cs : List Char} (h : WritesChars s cs) (r : List Char) :
    readChars (s ++ '"' :: r) = some (cs, r) := by
  induction h with
  | nil => rw [List.nil_append, readChars]
  | plain h hs ih => rw [List.cons_append, readChars_plain h, ih, Option.map_some]
  | escape h hs ih =>
    simp only [List.cons_append]
    rw [readChars_escape h, ih, Option.map_some]
  | unicode h hn hs ih =>
    simp only [List.cons_append]
    rw [readChars_unicode h hn, ih, Option.map_some]
  | pair h h' hh hl hs ih =>
    simp only [List.cons_append]
    rw [readChars_pair h h' hh hl, ih, Option.map_some]

/-- The reader takes `j` and leaves `r`. -/
def Takes {α : Type} {s : List Char} (x : Option (Step α s)) (a : α) (r : List Char) : Prop :=
  ∃ h, x = some ⟨a, r, h⟩

theorem skipSpace_append {a s : List Char} (ha : IsSpaces a) (hs : ∀ c ∈ s.head?, isSpace c = false) :
    skipSpace (a ++ s) = s :=
  Text.dropWhile_append_stop ha hs

theorem readString_takes {s cs : List Char} (h : WritesChars s cs) (r : List Char) :
    Takes (readString (s ++ '"' :: r)) (String.ofList cs) r := by
  have hr := readChars_of_writesChars h r
  unfold readString
  split
  next e => cases hr.symm.trans e
  next e =>
    cases hr.symm.trans e
    exact ⟨_, rfl⟩

theorem readScalar_number {s rest : List Char} {j : Json} (h : number? s = some (j, []))
    (hr : ∀ c ∈ rest.head?, endsNumber c = true) : Takes (readScalar (s ++ rest)) j rest := by
  obtain ⟨c, t, rfl, hc⟩ := exists_head_of_number? h
  have hn := number?_append h hr
  have hw : ∀ d p, isDigit d = false → d ≠ '-' → Text.after? (d :: p) (c :: t ++ rest) = none := by
    intro d p hd hm
    have : d ≠ c := by
      rintro rfl
      rcases hc with hc | hc
      · exact absurd hc (by rw [hd]; exact Bool.false_ne_true)
      · exact hm hc
    simp [Text.after?, this]
  unfold readScalar
  split
  next e => exact absurd (e.symm.trans (hw _ _ (by decide) (by decide))) (by simp)
  split
  next e => exact absurd (e.symm.trans (hw _ _ (by decide) (by decide))) (by simp)
  split
  next e => exact absurd (e.symm.trans (hw _ _ (by decide) (by decide))) (by simp)
  split
  next e =>
    cases hn.symm.trans e
    have hl : rest.length < (c :: t ++ rest).length := by
      simp only [List.length_append, List.length_cons]
      omega
    rw [dif_pos hl]
    exact ⟨_, rfl⟩
  next e => cases hn.symm.trans e

section

variable {s r r' : List Char}

theorem readValue_string {x : String} (h : skipSpace s = '"' :: r) (hx : Takes (readString r) x r') :
    Takes (readValue s) (.string x) r' := by
  obtain ⟨_, hx⟩ := hx
  unfold readValue
  split
  next e =>
    cases h.symm.trans e
    rw [hx]
    exact ⟨_, rfl⟩
  next e => cases h.symm.trans e
  next e => cases h.symm.trans e
  next hq _ _ => exact absurd h (hq r)

theorem readValue_scalar {j : Json} (h : ∀ c ∈ (skipSpace s).head?, c ≠ '"' ∧ c ≠ '[' ∧ c ≠ '{')
    (hj : Takes (readScalar (skipSpace s)) j r) : Takes (readValue s) j r := by
  obtain ⟨_, hj⟩ := hj
  unfold readValue
  split
  next e => exact absurd rfl (h '"' (by rw [e]; rfl)).1
  next e => exact absurd rfl (h '[' (by rw [e]; rfl)).2.1
  next e => exact absurd rfl (h '{' (by rw [e]; rfl)).2.2
  next =>
    rw [hj]
    exact ⟨_, rfl⟩

theorem readValue_emptyArray (h : skipSpace s = '[' :: r) (hr : skipSpace r = ']' :: r') :
    Takes (readValue s) (.array []) r' := by
  unfold readValue
  split
  next e => cases h.symm.trans e
  next e =>
    cases h.symm.trans e
    dsimp only
    split
    next e' =>
      cases hr.symm.trans e'
      exact ⟨_, rfl⟩
    next e' => exact absurd hr (e' r')
  next e => cases h.symm.trans e
  next ha _ => exact absurd h (ha r)

theorem readValue_array {items : List Json} (h : skipSpace s = '[' :: r) (hr : ∀ t, skipSpace r ≠ ']' :: t)
    (hi : Takes (readItems [] r) items r') : Takes (readValue s) (.array items) r' := by
  obtain ⟨_, hi⟩ := hi
  unfold readValue
  split
  next e => cases h.symm.trans e
  next e =>
    cases h.symm.trans e
    dsimp only
    split
    next e' => exact absurd e' (hr _)
    next =>
      rw [hi]
      exact ⟨_, rfl⟩
  next e => cases h.symm.trans e
  next ha _ => exact absurd h (ha r)

theorem readValue_emptyObject (h : skipSpace s = '{' :: r) (hr : skipSpace r = '}' :: r') :
    Takes (readValue s) (.object []) r' := by
  unfold readValue
  split
  next e => cases h.symm.trans e
  next e => cases h.symm.trans e
  next e =>
    cases h.symm.trans e
    dsimp only
    split
    next e' =>
      cases hr.symm.trans e'
      exact ⟨_, rfl⟩
    next e' => exact absurd hr (e' r')
  next ho => exact absurd h (ho r)

theorem readValue_object {fields : List (String × Json)} (h : skipSpace s = '{' :: r)
    (hr : ∀ t, skipSpace r ≠ '}' :: t) (hf : Takes (readFields [] r) fields r') :
    Takes (readValue s) (.object fields) r' := by
  obtain ⟨_, hf⟩ := hf
  unfold readValue
  split
  next e => cases h.symm.trans e
  next e => cases h.symm.trans e
  next e =>
    cases h.symm.trans e
    dsimp only
    split
    next e' => exact absurd e' (hr _)
    next =>
      rw [hf]
      exact ⟨_, rfl⟩
  next ho => exact absurd h (ho r)

theorem readItems_last {j : Json} (read : List Json) (h : Takes (readValue s) j r) (hr : skipSpace r = ']' :: r') :
    Takes (readItems read s) (j :: read).reverse r' := by
  obtain ⟨_, h⟩ := h
  unfold readItems
  rw [h]
  dsimp only
  split
  next e => cases hr.symm.trans e
  next e =>
    cases hr.symm.trans e
    exact ⟨_, rfl⟩
  next ha => exact absurd hr (ha r')

theorem readItems_more {j : Json} {read items : List Json} {r'' : List Char} (h : Takes (readValue s) j r)
    (hr : skipSpace r = ',' :: r') (hi : Takes (readItems (j :: read) r') items r'') :
    Takes (readItems read s) items r'' := by
  obtain ⟨_, h⟩ := h
  obtain ⟨_, hi⟩ := hi
  unfold readItems
  rw [h]
  dsimp only
  split
  next e =>
    cases hr.symm.trans e
    rw [hi]
    exact ⟨_, rfl⟩
  next e => cases hr.symm.trans e
  next ha _ => exact absurd hr (ha r')

def TakesKey (s : List Char) (key : String) (r : List Char) : Prop :=
  ∃ t t', skipSpace s = '"' :: t ∧ Takes (readString t) key t' ∧ skipSpace t' = ':' :: r

theorem readFields_last {key : String} {j : Json} (read : List (String × Json)) {t : List Char}
    (hk : TakesKey s key r) (h : Takes (readValue r) j r') (hr : skipSpace r' = '}' :: t) :
    Takes (readFields read s) ((key, j) :: read).reverse t := by
  obtain ⟨k, k', hs, ⟨_, hk⟩, hc⟩ := hk
  obtain ⟨_, h⟩ := h
  unfold readFields
  split
  case h_2 ha => exact absurd hs (ha k)
  next e =>
  cases hs.symm.trans e
  rw [hk]
  dsimp only
  split
  case h_2 ha => exact absurd hc (ha r)
  next e =>
  cases hc.symm.trans e
  rw [h]
  dsimp only
  split
  next e => cases hr.symm.trans e
  next e =>
    cases hr.symm.trans e
    exact ⟨_, rfl⟩
  next ha => exact absurd hr (ha t)

theorem readFields_more {key : String} {j : Json} {read fields : List (String × Json)} {t t' : List Char}
    (hk : TakesKey s key r) (h : Takes (readValue r) j r') (hr : skipSpace r' = ',' :: t)
    (hf : Takes (readFields ((key, j) :: read) t) fields t') : Takes (readFields read s) fields t' := by
  obtain ⟨k, k', hs, ⟨_, hk⟩, hc⟩ := hk
  obtain ⟨_, h⟩ := h
  obtain ⟨_, hf⟩ := hf
  unfold readFields
  split
  case h_2 ha => exact absurd hs (ha k)
  next e =>
  cases hs.symm.trans e
  rw [hk]
  dsimp only
  split
  case h_2 ha => exact absurd hc (ha r)
  next e =>
  cases hc.symm.trans e
  rw [h]
  dsimp only
  split
  next e =>
    cases hr.symm.trans e
    rw [hf]
    exact ⟨_, rfl⟩
  next e => cases hr.symm.trans e
  next ha _ => exact absurd hr (ha t)

end

/-- Blanks end a number, as what follows them does. -/
theorem endsNumber_head_append {b s : List Char} (hb : IsSpaces b) (hs : ∀ c ∈ s.head?, endsNumber c = true) :
    ∀ c ∈ (b ++ s).head?, endsNumber c = true := by
  cases b with
  | nil => exact hs
  | cons c b =>
    refine Text.forall_head_cons ?_
    have hc := hb c List.mem_cons_self
    simp only [isSpace, Bool.or_eq_true, beq_iff_eq] at hc
    rcases hc with ((rfl | rfl) | rfl) | rfl <;> rfl

theorem isSpace_eq_false_of_isDigit {c : Char} (h : isDigit c = true) : isSpace c = false := by
  by_contra hs
  rw [Bool.not_eq_false] at hs
  simp only [isSpace, Bool.or_eq_true, beq_iff_eq] at hs
  rcases hs with ((rfl | rfl) | rfl) | rfl <;> exact absurd h (by decide)

/-- A value begins with no blank and with no closing bracket. -/
theorem Writes.exists_head {s : List Char} {j : Json} (h : Writes s j) :
    ∃ c t, s = c :: t ∧ isSpace c = false ∧ c ≠ ']' := by
  cases h with
  | null => exact ⟨_, _, rfl, by decide, by decide⟩
  | bool b => cases b <;> exact ⟨_, _, rfl, by decide, by decide⟩
  | number h =>
    obtain ⟨c, t, rfl, hd | rfl⟩ := exists_head_of_number? h
    · refine ⟨c, t, rfl, isSpace_eq_false_of_isDigit hd, ?_⟩
      rintro rfl
      exact absurd hd (by decide)
    · exact ⟨_, _, rfl, by decide, by decide⟩
  | string _ => exact ⟨_, _, rfl, by decide, by decide⟩
  | array _ => exact ⟨_, _, rfl, by decide, by decide⟩
  | object _ => exact ⟨_, _, rfl, by decide, by decide⟩

theorem WritesKey.takes {k : List Char} {key : String} (h : WritesKey k key) (r : List Char) :
    ∃ c, IsSpaces c ∧ TakesKey (k ++ r) key (c ++ r) := by
  obtain @⟨a, k, b, c, cs, ha, hk, hb, hc⟩ := h
  refine ⟨c, hc, k ++ '"' :: (b ++ ':' :: (c ++ r)), b ++ ':' :: (c ++ r), ?_, readString_takes hk _, ?_⟩
  · simp only [List.append_assoc, List.cons_append]
    exact skipSpace_append ha (Text.forall_head_cons (by decide))
  · exact skipSpace_append hb (Text.forall_head_cons (by decide))

theorem readScalar_word {p : List Char} {j : Json} (rest : List Char)
    (h : p = "null".toList ∧ j = .null ∨ p = "true".toList ∧ j = .bool true ∨ p = "false".toList ∧ j = .bool false) :
    Takes (readScalar (p ++ rest)) j rest := by
  unfold readScalar
  rcases h with ⟨rfl, rfl⟩ | ⟨rfl, rfl⟩ | ⟨rfl, rfl⟩
  · split
    next e =>
      cases (Text.after?_append _ _).symm.trans e
      exact ⟨_, rfl⟩
    next e => cases (Text.after?_append _ _).symm.trans e
  · split
    next e => cases e
    split
    next e =>
      cases (Text.after?_append _ _).symm.trans e
      exact ⟨_, rfl⟩
    next e => cases (Text.after?_append _ _).symm.trans e
  · split
    next e => cases e
    split
    next e => cases e
    split
    next e =>
      cases (Text.after?_append _ _).symm.trans e
      exact ⟨_, rfl⟩
    next e => cases (Text.after?_append _ _).symm.trans e

/-- A word or a number behind blanks. -/
theorem readValue_of_scalar {a s rest : List Char} {j : Json} (ha : IsSpaces a)
    (hs : ∃ c t, s = c :: t ∧ isSpace c = false ∧ c ≠ '"' ∧ c ≠ '[' ∧ c ≠ '{')
    (hj : Takes (readScalar (s ++ rest)) j rest) :
    Takes (readValue (a ++ (s ++ rest))) j rest := by
  obtain ⟨c, t, rfl, hc, hn⟩ := hs
  have hk := skipSpace_append (s := c :: t ++ rest) ha (Text.forall_head_cons hc)
  refine readValue_scalar ?_ ?_
  · rw [hk]
    exact Text.forall_head_cons hn
  · rw [hk]
    exact hj

/-- Between brackets there is a value if there is an item. -/
theorem WritesItems.exists_head {s : List Char} {items : List Json} (h : WritesItems s items) (hi : items ≠ [])
    (r : List Char) : ∀ t, skipSpace (s ++ r) ≠ ']' :: t := by
  have key : ∀ {a v : List Char} {j : Json} (u : List Char), IsSpaces a → Writes v j →
      ∀ t, skipSpace (a ++ (v ++ u)) ≠ ']' :: t := by
    intro a v j u ha hv t ht
    obtain ⟨c, v, rfl, hc, hn⟩ := hv.exists_head
    rw [List.cons_append, skipSpace_append ha (Text.forall_head_cons hc)] at ht
    exact hn (List.cons.inj ht).1
  cases h with
  | none _ => exact absurd rfl hi
  | last ha hv hb =>
    rw [List.append_assoc, List.append_assoc]
    exact key _ ha hv
  | more ha hv hb hj ht =>
    rw [List.append_assoc, List.append_assoc]
    exact key _ ha hv

theorem WritesFields.exists_head {s : List Char} {fields : List (String × Json)} (h : WritesFields s fields)
    (hf : fields ≠ []) (r : List Char) : ∀ t, skipSpace (s ++ r) ≠ '}' :: t := by
  have key : ∀ {k : List Char} {name : String} (u : List Char), WritesKey k name →
      ∀ t, skipSpace (k ++ u) ≠ '}' :: t := by
    intro k name u hk t ht
    obtain ⟨c, _, k, _, hs, _⟩ := hk.takes u
    cases hs.symm.trans ht
  cases h with
  | none _ => exact absurd rfl hf
  | last hk hv hb =>
    rw [List.append_assoc]
    exact key _ hk
  | more hk hv hb hj ht =>
    rw [List.append_assoc]
    exact key _ hk

mutual

/-- A value behind blanks and in front of what ends a number. -/
theorem Writes.takes {s : List Char} {j : Json} (h : Writes s j) {a rest : List Char} (ha : IsSpaces a)
    (hr : ∀ c ∈ rest.head?, endsNumber c = true) : Takes (readValue (a ++ (s ++ rest))) j rest := by
  cases h with
  | null => exact readValue_of_scalar ha ⟨_, _, rfl, by decide⟩ (readScalar_word rest (.inl ⟨rfl, rfl⟩))
  | bool b =>
    cases b with
    | true => exact readValue_of_scalar ha ⟨_, _, rfl, by decide⟩ (readScalar_word rest (.inr (.inl ⟨rfl, rfl⟩)))
    | false => exact readValue_of_scalar ha ⟨_, _, rfl, by decide⟩ (readScalar_word rest (.inr (.inr ⟨rfl, rfl⟩)))
  | number h =>
    refine readValue_of_scalar ha ?_ (readScalar_number h hr)
    obtain ⟨c, t, rfl, hd | rfl⟩ := exists_head_of_number? h
    · refine ⟨c, t, rfl, isSpace_eq_false_of_isDigit hd, ?_, ?_, ?_⟩ <;> rintro rfl <;> exact absurd hd (by decide)
    · exact ⟨_, _, rfl, by decide⟩
  | @string s cs h =>
    have hs := skipSpace_append (s := '"' :: (s ++ ['"']) ++ rest) ha (Text.forall_head_cons (by decide))
    rw [List.cons_append, List.append_assoc] at hs ⊢
    exact readValue_string hs (readString_takes h rest)
  | @array s items h =>
    have hs := skipSpace_append (s := '[' :: (s ++ [']']) ++ rest) ha (Text.forall_head_cons (by decide))
    rw [List.cons_append, List.append_assoc] at hs
    by_cases hi : items = []
    · subst hi
      cases h with
      | none hb =>
        rw [List.cons_append, List.append_assoc]
        exact readValue_emptyArray hs (skipSpace_append hb (Text.forall_head_cons (by decide)))
    · rw [List.cons_append, List.append_assoc]
      exact readValue_array hs (h.exists_head hi _) (h.takes hi [] rest)
  | @object s fields h =>
    have hs := skipSpace_append (s := '{' :: (s ++ ['}']) ++ rest) ha (Text.forall_head_cons (by decide))
    rw [List.cons_append, List.append_assoc] at hs
    by_cases hf : fields = []
    · subst hf
      cases h with
      | none hb =>
        rw [List.cons_append, List.append_assoc]
        exact readValue_emptyObject hs (skipSpace_append hb (Text.forall_head_cons (by decide)))
    · rw [List.cons_append, List.append_assoc]
      exact readValue_object hs (h.exists_head hf _) (h.takes hf [] rest)

theorem WritesItems.takes {s : List Char} {items : List Json} (h : WritesItems s items) (hi : items ≠ [])
    (read : List Json) (rest : List Char) : Takes (readItems read (s ++ ']' :: rest)) (read.reverse ++ items) rest := by
  cases h with
  | none _ => exact absurd rfl hi
  | @last a s b j ha hv hb =>
    have hx := hv.takes ha (endsNumber_head_append (s := ']' :: rest) hb (Text.forall_head_cons (by decide)))
    have hl := readItems_last read hx (skipSpace_append hb (Text.forall_head_cons (by decide)))
    rw [List.reverse_cons] at hl
    rw [List.append_assoc, List.append_assoc]
    exact hl
  | @more a s b t j js ha hv hb hj ht =>
    have hx :=
      hv.takes ha (endsNumber_head_append (s := ',' :: (t ++ ']' :: rest)) hb (Text.forall_head_cons (by decide)))
    have hi := ht.takes hj (j :: read) rest
    rw [List.reverse_cons, List.append_assoc] at hi
    rw [List.append_assoc, List.append_assoc, List.append_assoc]
    exact readItems_more hx (skipSpace_append hb (Text.forall_head_cons (by decide))) hi

theorem WritesFields.takes {s : List Char} {fields : List (String × Json)} (h : WritesFields s fields)
    (hf : fields ≠ []) (read : List (String × Json)) (rest : List Char) :
    Takes (readFields read (s ++ '}' :: rest)) (read.reverse ++ fields) rest := by
  cases h with
  | none _ => exact absurd rfl hf
  | @last k s b key j hk hv hb =>
    obtain ⟨c, hc, hk⟩ := hk.takes (s ++ (b ++ '}' :: rest))
    have hx := hv.takes hc (endsNumber_head_append (s := '}' :: rest) hb (Text.forall_head_cons (by decide)))
    have hl := readFields_last read hk hx (skipSpace_append hb (Text.forall_head_cons (by decide)))
    rw [List.reverse_cons] at hl
    rw [List.append_assoc, List.append_assoc]
    exact hl
  | @more k s b t key j fs hk hv hb hj ht =>
    obtain ⟨c, hc, hk⟩ := hk.takes (s ++ (b ++ ',' :: (t ++ '}' :: rest)))
    have hx :=
      hv.takes hc (endsNumber_head_append (s := ',' :: (t ++ '}' :: rest)) hb (Text.forall_head_cons (by decide)))
    have hi := ht.takes hj ((key, j) :: read) rest
    rw [List.reverse_cons, List.append_assoc] at hi
    rw [List.append_assoc, List.append_assoc, List.append_assoc]
    exact readFields_more hk hx (skipSpace_append hb (Text.forall_head_cons (by decide))) hi

end

/-- A text of a value, with blanks around it, is read as that value. -/
theorem parseChars?_of_writes {s : List Char} {j : Json} (h : Writes s j) {a b : List Char} (ha : IsSpaces a)
    (hb : IsSpaces b) : parseChars? (a ++ (s ++ b)) = some j := by
  have he : ∀ c ∈ b.head?, endsNumber c = true := by
    have := endsNumber_head_append (s := []) hb (by simp)
    rwa [List.append_nil] at this
  obtain ⟨_, hj⟩ := h.takes ha he
  have hs : skipSpace b = [] := by
    have := skipSpace_append (s := []) hb (by simp)
    rwa [List.append_nil] at this
  rw [parseChars?, hj]
  dsimp only [Option.bind_eq_bind, Option.bind_some]
  rw [hs]
  rfl

end Emend.Json
