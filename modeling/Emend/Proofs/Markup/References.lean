import Emend.Proofs.Markup.Escaping
import Mathlib.Data.List.Induction

/-! # Which references are decoded

`Refers` is the grammar of references, and `Decoded` the scan that decodes one wherever it stands. Decoding agrees with
that scan as long as no reference stands behind an `&` that is still waiting for its `;`, and no number in a reference
carries a sign.
-/

namespace Emend.Markup

/-- The digits write the number in the given base. -/
inductive Numeral (base : Nat) : List Char → Nat → Prop
  | nil : Numeral base [] 0
  | concat {ds : List Char} {n : Nat} {c : Char} {v : Nat} :
      Numeral base ds n → digit? base c = some v → Numeral base (ds ++ [c]) (n * base + v)

/-- What stands between `&` and `;` in a well-formed reference to the character. -/
inductive Refers : List Char → Char → Prop
  | amp : Refers "amp".toList '&'
  | lt : Refers "lt".toList '<'
  | gt : Refers "gt".toList '>'
  | quot : Refers "quot".toList '"'
  | apos : Refers "apos".toList '\''
  | decimal {ds : List Char} {n : Nat} : ds ≠ [] → Numeral 10 ds n → n.isValidChar → Refers ('#' :: ds) (Char.ofNat n)
  | hexadecimal {x : Char} {ds : List Char} {n : Nat} : x = 'x' ∨ x = 'X' → ds ≠ [] → Numeral 16 ds n →
      n.isValidChar → Refers ('#' :: x :: ds) (Char.ofNat n)

/-- The same with a plus sign in front of the digits, which is no reference. -/
inductive SignedRefers : List Char → Char → Prop
  | decimal {ds : List Char} {n : Nat} : ds ≠ [] → Numeral 10 ds n → n.isValidChar →
      SignedRefers ('#' :: '+' :: ds) (Char.ofNat n)
  | hexadecimal {x : Char} {ds : List Char} {n : Nat} : x = 'x' ∨ x = 'X' → ds ≠ [] → Numeral 16 ds n →
      n.isValidChar → SignedRefers ('#' :: x :: '+' :: ds) (Char.ofNat n)

/-- The scan from left to right: an `&` that begins a well-formed reference is decoded with it, any other character
is copied. -/
inductive Decoded : List Char → List Char → Prop
  | nil : Decoded [] []
  | reference {name s out : List Char} {c : Char} :
      Refers name c → Decoded s out → Decoded ('&' :: (name ++ ';' :: s)) (c :: out)
  | bare {s out : List Char} : (∀ name c rest, Refers name c → s ≠ name ++ ';' :: rest) → Decoded s out →
      Decoded ('&' :: s) ('&' :: out)
  | plain {c : Char} {s out : List Char} : c ≠ '&' → Decoded s out → Decoded (c :: s) (c :: out)

/-- Behind a mark stands what is misread: a reference, if a mark further in front is still waiting for its semicolon,
and otherwise a number with a sign. -/
def Misread (waiting : Bool) (s : List Char) : Prop :=
  ∃ name c rest, s = name ++ ';' :: rest ∧ if waiting then Refers name c else SignedRefers name c

/-- Behind no mark of the text stands what is misread; `waiting` says whether a mark in front of the text is waiting
for its semicolon. -/
def Unobstructed (waiting : Bool) : List Char → Prop
  | [] => True
  | c :: s => (c = '&' → ¬Misread waiting s) ∧ Unobstructed (c == '&' || waiting && c != ';') s

theorem numeral_concat_iff {base n : Nat} {ds : List Char} {c : Char} :
    Numeral base (ds ++ [c]) n ↔ ∃ m, Numeral base ds m ∧ ∃ v, digit? base c = some v ∧ m * base + v = n := by
  constructor
  · intro h
    generalize e : ds ++ [c] = s at h
    cases h with
    | nil => simp at e
    | concat hm hv =>
      obtain ⟨rfl, hc⟩ := List.append_inj' e rfl
      cases hc
      exact ⟨_, hm, _, hv, rfl⟩
  · rintro ⟨m, hm, v, hv, rfl⟩
    exact .concat hm hv

theorem Numeral.isSome_digit? {base n : Nat} {ds : List Char} (h : Numeral base ds n) :
    ∀ c ∈ ds, (digit? base c).isSome = true := by
  induction h with
  | nil =>
    intro c hc
    cases hc
  | concat _ hv ih =>
    intro c hc
    rcases List.mem_append.1 hc with hc | hc
    · exact ih c hc
    · obtain rfl := List.mem_singleton.1 hc
      rw [hv]
      rfl

theorem Numeral.not_mem {base n : Nat} {c : Char} {ds : List Char} (h : Numeral base ds n) (hc : digit? base c = none) :
    c ∉ ds := by
  intro hm
  have hd := h.isSome_digit? c hm
  rw [hc] at hd
  cases hd

theorem not_numeral_cons {base n : Nat} {c : Char} {ds : List Char} (hc : digit? base c = none) :
    ¬Numeral base (c :: ds) n := fun h => h.not_mem hc List.mem_cons_self

theorem foldl_digits_eq_some_iff {base n : Nat} {ds : List Char} :
    ds.foldl (fun acc c => do return (← acc) * base + (← digit? base c)) (some 0) = some n ↔ Numeral base ds n := by
  induction ds using List.reverseRecOn generalizing n with
  | nil =>
    constructor
    · rintro ⟨⟩
      exact .nil
    · intro h
      generalize e : ([] : List Char) = s at h
      cases h with
      | nil => rfl
      | concat => simp at e
  | append_singleton ds c ih =>
    rw [List.foldl_append, List.foldl_cons, List.foldl_nil, numeral_concat_iff]
    simp only [Option.bind_eq_bind, Option.bind_eq_some_iff, Option.pure_def, Option.some.injEq] at ih ⊢
    simp only [ih]

theorem number?_eq_some_iff {base n : Nat} {s : List Char} (hp : digit? base '+' = none) :
    number? base s = some n ↔
      s ≠ [] ∧ Numeral base s n ∨ ∃ ds, s = '+' :: ds ∧ ds ≠ [] ∧ Numeral base ds n := by
  have unsigned (ds : List Char) : (if ds = [] then none else
      ds.foldl (fun acc c => do return (← acc) * base + (← digit? base c)) (some 0)) = some n ↔
        ds ≠ [] ∧ Numeral base ds n := by
    split
    next he => simp [he]
    next he => simp only [foldl_digits_eq_some_iff, ne_eq, he, not_false_iff, true_and]
  unfold number?
  split
  next ds =>
    rw [unsigned]
    simp [not_numeral_cons hp]
  next hs =>
    rw [unsigned]
    constructor
    · exact .inl
    · rintro (h | ⟨ds, hd, -⟩)
      · exact h
      · exact absurd hd (hs ds)

theorem scalar?_eq_some_iff {n : Nat} {c : Char} : scalar? n = some c ↔ n.isValidChar ∧ Char.ofNat n = c := by
  unfold scalar?
  split <;> simp [*]

theorem number_refers_iff {base : Nat} {s : List Char} {c : Char} (hp : digit? base '+' = none) :
    (number? base s >>= scalar?) = some c ↔
      ∃ n, n.isValidChar ∧ Char.ofNat n = c ∧
        (s ≠ [] ∧ Numeral base s n ∨ ∃ ds, s = '+' :: ds ∧ ds ≠ [] ∧ Numeral base ds n) := by
  simp only [Option.bind_eq_bind, Option.bind_eq_some_iff, number?_eq_some_iff hp, scalar?_eq_some_iff]
  constructor
  · rintro ⟨n, hn, hv, hc⟩
    exact ⟨n, hv, hc, hn⟩
  · rintro ⟨n, hv, hc, hn⟩
    exact ⟨n, hn, hv, hc⟩

theorem reference?_hexadecimal {x : Char} (hx : x = 'x' ∨ x = 'X') (s : List Char) :
    reference? ('#' :: x :: s) = number? 16 s >>= scalar? := by
  rcases hx with rfl | rfl <;> rfl

theorem reference?_decimal {s : List Char} (hs : ∀ x ∈ s.head?, x ≠ 'x' ∧ x ≠ 'X') :
    reference? ('#' :: s) = number? 10 s >>= scalar? := by
  unfold reference?
  rw [if_neg (by simp), if_neg (by simp), if_neg (by simp), if_neg (by simp), if_neg (by simp)]
  split
  next e =>
    cases e
    exact absurd rfl (hs 'x' rfl).1
  next e =>
    cases e
    exact absurd rfl (hs 'X' rfl).2
  next e =>
    cases e
    rfl
  next h => exact absurd rfl (h s)

theorem Numeral.head?_ne {n : Nat} {ds : List Char} (h : Numeral 10 ds n) : ∀ x ∈ ds.head?, x ≠ 'x' ∧ x ≠ 'X' := by
  intro x hx
  have hd := h.isSome_digit? x (List.mem_of_mem_head? hx)
  constructor
  · rintro rfl
    exact absurd hd (by decide)
  · rintro rfl
    exact absurd hd (by decide)

theorem of_reference? {name : List Char} {c : Char} (h : reference? name = some c) :
    Refers name c ∨ SignedRefers name c := by
  unfold reference? at h
  split at h
  next e =>
    cases h
    exact .inl (e ▸ .amp)
  split at h
  next e =>
    cases h
    exact .inl (e ▸ .lt)
  split at h
  next e =>
    cases h
    exact .inl (e ▸ .gt)
  split at h
  next e =>
    cases h
    exact .inl (e ▸ .quot)
  split at h
  next e =>
    cases h
    exact .inl (e ▸ .apos)
  split at h
  next s =>
    obtain ⟨n, hv, rfl, ⟨hs, hn⟩ | ⟨ds, rfl, hs, hn⟩⟩ := (number_refers_iff rfl).1 h
    · exact .inl (.hexadecimal (.inl rfl) hs hn hv)
    · exact .inr (.hexadecimal (.inl rfl) hs hn hv)
  next s =>
    obtain ⟨n, hv, rfl, ⟨hs, hn⟩ | ⟨ds, rfl, hs, hn⟩⟩ := (number_refers_iff rfl).1 h
    · exact .inl (.hexadecimal (.inr rfl) hs hn hv)
    · exact .inr (.hexadecimal (.inr rfl) hs hn hv)
  next s _ _ =>
    obtain ⟨n, hv, rfl, ⟨hs, hn⟩ | ⟨ds, rfl, hs, hn⟩⟩ := (number_refers_iff rfl).1 h
    · exact .inl (.decimal hs hn hv)
    · exact .inr (.decimal hs hn hv)
  next => cases h

theorem reference?_eq_some_iff {name : List Char} {c : Char} :
    reference? name = some c ↔ Refers name c ∨ SignedRefers name c := by
  constructor
  · exact of_reference?
  · rintro (h | h)
    · cases h with
      | amp | lt | gt | quot | apos => rfl
      | decimal hs hn hv =>
        rw [reference?_decimal hn.head?_ne]
        exact (number_refers_iff rfl).2 ⟨_, hv, rfl, .inl ⟨hs, hn⟩⟩
      | hexadecimal hx hs hn hv =>
        rw [reference?_hexadecimal hx]
        exact (number_refers_iff rfl).2 ⟨_, hv, rfl, .inl ⟨hs, hn⟩⟩
    · cases h with
      | decimal hs hn hv =>
        rw [reference?_decimal (Text.forall_head_cons ⟨by decide, by decide⟩)]
        exact (number_refers_iff rfl).2 ⟨_, hv, rfl, .inr ⟨_, rfl, hs, hn⟩⟩
      | hexadecimal hx hs hn hv =>
        rw [reference?_hexadecimal hx]
        exact (number_refers_iff rfl).2 ⟨_, hv, rfl, .inr ⟨_, rfl, hs, hn⟩⟩

theorem digit?_eq_none {base : Nat} {x : Char} (hx : x = ';' ∨ x = '+') : digit? base x = none := by
  rcases hx with rfl | rfl <;> rfl

/-- Neither a semicolon nor a sign stands in a reference. -/
theorem Refers.not_mem {name : List Char} {c x : Char} (h : Refers name c) (hx : x = ';' ∨ x = '+') : x ∉ name := by
  cases h with
  | amp | lt | gt | quot | apos => rcases hx with rfl | rfl <;> decide
  | decimal _ hn _ =>
    refine List.not_mem_cons_of_ne_of_not_mem ?_ (hn.not_mem (digit?_eq_none hx))
    rcases hx with rfl | rfl <;> decide
  | hexadecimal hX _ hn _ =>
    refine List.not_mem_cons_of_ne_of_not_mem ?_
      (List.not_mem_cons_of_ne_of_not_mem ?_ (hn.not_mem (digit?_eq_none hx)))
    · rcases hx with rfl | rfl <;> decide
    · rcases hx with rfl | rfl <;> rcases hX with rfl | rfl <;> decide

theorem Refers.semicolon_not_mem {name : List Char} {c : Char} (h : Refers name c) : ';' ∉ name := h.not_mem (.inl rfl)

theorem SignedRefers.semicolon_not_mem {name : List Char} {c : Char} (h : SignedRefers name c) : ';' ∉ name := by
  cases h with
  | decimal _ hn _ => simp [hn.not_mem (digit?_eq_none (.inl rfl))]
  | hexadecimal hX _ hn _ => rcases hX with rfl | rfl <;> simp [hn.not_mem (digit?_eq_none (.inl rfl))]

theorem SignedRefers.plus_mem {name : List Char} {c : Char} (h : SignedRefers name c) : '+' ∈ name := by
  cases h <;> simp

theorem breakOn?_semicolon {name rest : List Char} (h : ';' ∉ name) :
    Text.breakOn? [';'] (name ++ ';' :: rest) = some (name, rest) :=
  Text.breakOn?_append_mark [] List.not_mem_nil (Text.contains_singleton_eq_false_iff.2 h)

theorem eq_of_append_semicolon {a b s t : List Char} (ha : ';' ∉ a) (hb : ';' ∉ b)
    (h : a ++ ';' :: s = b ++ ';' :: t) : a = b ∧ s = t := by
  have e : Text.breakOn? [';'] (a ++ ';' :: s) = some (a, s) := breakOn?_semicolon ha
  rw [h, breakOn?_semicolon hb] at e
  cases e
  exact ⟨rfl, rfl⟩

theorem Refers.unique {name : List Char} {c d : Char} (h : Refers name c) (h' : Refers name d) : c = d :=
  Option.some.inj ((reference?_eq_some_iff.2 (.inl h)).symm.trans (reference?_eq_some_iff.2 (.inl h')))

theorem Decoded.unique {s a b : List Char} (h : Decoded s a) (h' : Decoded s b) : a = b := by
  induction h generalizing b with
  | nil =>
    cases h'
    rfl
  | @reference name s out c hn _ ih =>
    generalize e : '&' :: (name ++ ';' :: s) = t at h'
    cases h' with
    | nil => cases e
    | reference hn' ht =>
      -- both names end at the first semicolon
      obtain ⟨rfl, rfl⟩ := eq_of_append_semicolon hn.semicolon_not_mem hn'.semicolon_not_mem (List.cons.inj e).2
      rw [hn.unique hn', ih ht]
    | bare hb _ => exact absurd (List.cons.inj e).2.symm (hb name c s hn)
    | plain hc _ => exact absurd (List.cons.inj e).1.symm hc
  | bare hb _ ih =>
    cases h' with
    | reference hn _ => exact absurd rfl (hb _ _ _ hn)
    | bare _ ht => rw [ih ht]
    | plain hc _ => exact absurd rfl hc
  | plain hc _ ih =>
    cases h' with
    | reference => exact absurd rfl hc
    | bare => exact absurd rfl hc
    | plain _ ht => rw [ih ht]

/-- A semicolon ends the waiting of all marks in front of it. -/
theorem Unobstructed.behind {a s : List Char} {waiting : Bool} (h : Unobstructed waiting (a ++ ';' :: s)) :
    Unobstructed false s := by
  induction a generalizing waiting with
  | nil =>
    have ht := h.2
    rwa [show (';' == '&' || waiting && ';' != ';') = false by cases waiting <;> rfl] at ht
  | cons c a ih => exact ih h.2

/-- Without a mark, or without a semicolon, nothing is decoded. -/
theorem decoded_self {s : List Char} (h : '&' ∉ s ∨ ';' ∉ s) : Decoded s s := by
  induction s with
  | nil => exact .nil
  | cons c s ih =>
    have tail : '&' ∉ s ∨ ';' ∉ s := by
      refine h.imp ?_ ?_
      · intro hm h'
        exact hm (List.mem_cons_of_mem c h')
      · intro hm h'
        exact hm (List.mem_cons_of_mem c h')
    by_cases hc : c = '&'
    · subst hc
      refine .bare (fun name d rest _ e => ?_) (ih tail)
      have hs := h.resolve_left fun hm => hm List.mem_cons_self
      exact hs (e ▸ by simp)
    · exact .plain hc (ih tail)

/-- While a mark is waiting, everything up to the semicolon is copied. -/
theorem Decoded.copy {w s out : List Char} (hw : ';' ∉ w) (hn : Unobstructed true (w ++ ';' :: s)) (h : Decoded s out) :
    Decoded (w ++ ';' :: s) (w ++ ';' :: out) := by
  induction w with
  | nil => exact .plain (by decide) h
  | cons c w ih =>
    rw [List.mem_cons, not_or] at hw
    obtain ⟨hc, hw⟩ := hw
    have ht : Unobstructed (c == '&' || true && c != ';') (w ++ ';' :: s) := hn.2
    rw [show (c == '&' || true && c != ';') = true by simp [Ne.symm hc]] at ht
    by_cases hm : c = '&'
    · subst hm
      refine .bare (fun name d rest hr e => ?_) (ih hw ht)
      exact hn.1 rfl ⟨name, d, rest, e, hr⟩
    · exact .plain hm (ih hw ht)

theorem semicolon_not_mem_of_breakOn? {s name rest : List Char} (h : Text.breakOn? [';'] s = some (name, rest)) :
    ';' ∉ name :=
  Text.contains_singleton_eq_false_iff.1 (Text.contains_eq_false_of_breakOn? (List.cons_ne_nil _ _) h)

theorem decoded_unescapeChars {s : List Char} (h : Unobstructed false s) : Decoded s (unescapeChars s) := by
  fun_induction unescapeChars s with
  | case1 => exact .nil
  | case2 s hb =>
    have hs := Text.not_mem_of_breakOn?_eq_none hb
    exact decoded_self (.inr (List.not_mem_cons_of_ne_of_not_mem (by decide) hs))
  | case3 s name rest hb c hr _ ih =>
    obtain rfl : s = name ++ ';' :: rest := Text.eq_of_breakOn? hb
    have ht := ih (Unobstructed.behind h.2)
    rcases reference?_eq_some_iff.1 hr with hn | hn
    · exact .reference hn ht
    · exact absurd ⟨name, c, rest, rfl, hn⟩ (h.1 rfl)
  | case4 s name rest hb hr _ ih =>
    obtain rfl : s = name ++ ';' :: rest := Text.eq_of_breakOn? hb
    have ht := ih (Unobstructed.behind h.2)
    have hs := semicolon_not_mem_of_breakOn? hb
    -- every mark that waits for this semicolon is copied with the first one
    refine .bare (fun name' c rest' hn e => ?_) (ht.copy hs h.2)
    obtain ⟨rfl, -⟩ := eq_of_append_semicolon hs hn.semicolon_not_mem e
    rw [reference?_eq_some_iff.2 (.inl hn)] at hr
    cases hr
  | case5 c s hc ih =>
    refine .plain hc (ih ?_)
    have ht : Unobstructed (c == '&' || false && c != ';') s := h.2
    rwa [show (c == '&' || false && c != ';') = false by simp [hc]] at ht

/-- Signs tell the two kinds of what is misread from each other. -/
theorem misread_iff {waiting : Bool} {s : List Char} : Misread waiting s ↔
    ∃ found ∈ Text.breakOn? [';'] s, (reference? found.1).isSome = true ∧ ('+' ∈ found.1 ↔ waiting = false) := by
  constructor
  · rintro ⟨name, c, rest, rfl, h⟩
    cases waiting with
    | true =>
      have hr : Refers name c := h
      refine ⟨(name, rest), breakOn?_semicolon hr.semicolon_not_mem, ?_, ?_⟩
      · rw [reference?_eq_some_iff.2 (.inl hr)]
        rfl
      · simp [hr.not_mem (.inr rfl)]
    | false =>
      have hr : SignedRefers name c := h
      refine ⟨(name, rest), breakOn?_semicolon hr.semicolon_not_mem, ?_, ?_⟩
      · rw [reference?_eq_some_iff.2 (.inr hr)]
        rfl
      · simp [hr.plus_mem]
  · rintro ⟨⟨name, rest⟩, hb, hr, hp⟩
    obtain ⟨c, hc⟩ := Option.isSome_iff_exists.1 hr
    refine ⟨name, c, rest, Text.eq_of_breakOn? hb, ?_⟩
    cases waiting with
    | true =>
      refine (reference?_eq_some_iff.1 hc).resolve_right fun hs => ?_
      simp [hs.plus_mem] at hp
    | false =>
      refine (reference?_eq_some_iff.1 hc).resolve_left fun hn => ?_
      simp [hn.not_mem (.inr rfl)] at hp

instance (waiting : Bool) (s : List Char) : Decidable (Misread waiting s) :=
  decidable_of_iff _ misread_iff.symm

instance decidableUnobstructed : (waiting : Bool) → (s : List Char) → Decidable (Unobstructed waiting s)
  | _, [] => inferInstanceAs (Decidable True)
  | waiting, c :: s =>
    have := decidableUnobstructed (c == '&' || waiting && c != ';') s
    inferInstanceAs (Decidable ((c = '&' → ¬Misread waiting s) ∧ Unobstructed (c == '&' || waiting && c != ';') s))

/-- Decoding is the scan of the well-formed references. -/
theorem unescape_decodes {raw : String} (h : Unobstructed false raw.toList) (out : List Char) :
    Decoded raw.toList out ↔ out = (unescape raw).toList := by
  have hd := decoded_unescapeChars h
  rw [unescape, String.toList_ofList]
  constructor
  · intro ho
    exact ho.unique hd
  · rintro rfl
    exact hd

/-- References of every kind, one to a surrogate, an unknown one, and marks that begin none. -/
theorem unescape_decodes_kinds :
    Unobstructed false "a &lt;b&gt; &#65;&#x42;&#X63; &unknown; &#xD800; & R&D; &amp;lt; &".toList ∧
      Decoded "a &lt;b&gt; &#65;&#x42;&#X63; &unknown; &#xD800; & R&D; &amp;lt; &".toList
        "a <b> ABc &unknown; &#xD800; & R&D; &lt; &".toList := by
  have h : Unobstructed false "a &lt;b&gt; &#65;&#x42;&#X63; &unknown; &#xD800; & R&D; &amp;lt; &".toList := by decide
  exact ⟨h, (unescape_decodes h _).2 (by decide +kernel)⟩

/-- A mark that begins no reference hides the reference behind it, and a number may carry a sign. -/
theorem reference_hidden :
    (∃ out, Decoded "&&lt;".toList out ∧ out ≠ (unescape "&&lt;").toList) ∧
      ∃ out, Decoded "&#+65;".toList out ∧ out ≠ (unescape "&#+65;").toList := by
  have none_begins (text : List Char) {name : List Char} {c : Char} {rest : List Char} (ht : ';' ∉ text)
      (hr : reference? text = none ∨ '+' ∈ text) (hn : Refers name c) : text ++ [';'] ≠ name ++ ';' :: rest := by
    intro e
    obtain ⟨rfl, -⟩ := eq_of_append_semicolon ht hn.semicolon_not_mem e
    rcases hr with hr | hp
    · rw [reference?_eq_some_iff.2 (.inl hn)] at hr
      cases hr
    · exact hn.not_mem (.inr rfl) hp
  constructor
  · refine ⟨"&<".toList, .bare (fun name c rest hn => ?_) (.reference .lt .nil), by decide +kernel⟩
    exact none_begins "&lt".toList (by decide) (.inl rfl) hn
  · refine ⟨"&#+65;".toList, .bare (fun name c rest hn => ?_) (decoded_self (.inl (by decide))), by decide +kernel⟩
    exact none_begins "#+65".toList (by decide) (.inr (by decide)) hn

end Emend.Markup
