import Emend.Markup.TagPath
import Emend.Proofs.Outcome
import Emend.Proofs.Text.Finding
import Mathlib.Data.List.Forall2

/-! # Selecting by names

Which expressions are read, and which elements they select: those whose names from the root on are what the segments
stand for, one by one.
-/

namespace Emend

namespace Text

theorem splitWhere_eq_splitOn (c : Char) (s : List Char) : splitWhere (· == c) s = s.splitOn c := by
  induction s with
  | nil => rfl
  | cons d s ih =>
    rw [splitWhere, ih, List.splitOn_cons_eq_if_modifyHead]
    cases pieces : s.splitOn c with
    | nil => exact absurd pieces (List.splitOn_ne_nil c s)
    | cons piece more => rfl

theorem not_mem_of_mem_splitOn {c : Char} {s p : List Char} (h : p ∈ s.splitOn c) : c ∉ p := by
  induction s generalizing p with
  | nil =>
    obtain rfl := List.mem_singleton.1 h
    exact List.not_mem_nil
  | cons d s ih =>
    rw [List.splitOn_cons_eq_if_modifyHead] at h
    split at h
    next =>
      obtain rfl | h := List.mem_cons.1 h
      · exact List.not_mem_nil
      · exact ih h
    next other =>
      cases pieces : s.splitOn c with
      | nil => exact absurd pieces (List.splitOn_ne_nil c s)
      | cons piece more =>
        rw [pieces] at h ih
        obtain rfl | h := List.mem_cons.1 h
        · have first : c ≠ d := fun same => other (beq_iff_eq.2 same.symm)
          exact List.not_mem_cons_of_ne_of_not_mem first (ih List.mem_cons_self)
        · exact ih (List.mem_cons_of_mem _ h)

end Text

namespace Markup.TagPath

/-- Whether a text starts at the root, and what is left of it: two slashes in front are taken away, or else one. -/
inductive Opens : String → Bool → String → Prop where
  | anywhere (body : String) : Opens ("//" ++ body) false body
  | root {body : String} (h : body.toList.head? ≠ some '/') : Opens ("/" ++ body) true body
  | bare {body : String} (h : body.toList.head? ≠ some '/') : Opens body false body

/-- The pieces between the slashes of a text. -/
structure Pieces (body : String) (pieces : List String) : Prop where
  joined : "/".intercalate pieces = body
  ne_nil : pieces ≠ []
  slashless : ∀ s ∈ pieces, '/' ∉ s.toList

/-- What an expression said: whether its path starts at the root, and the segments of the path. -/
def Says (e : String) (anchored : Bool) (segments : List String) : Prop :=
  ∃ body, Opens (Text.trim e) anchored body ∧ Pieces body segments ∧ "" ∉ segments

theorem exists_opens (s : String) : ∃ anchored body, Opens s anchored body := by
  by_cases slash : s.toList.head? = some '/'
  · obtain ⟨rest, shown⟩ := List.head?_eq_some_iff.1 slash
    by_cases again : rest.head? = some '/'
    · obtain ⟨body, rfl⟩ := List.head?_eq_some_iff.1 again
      refine ⟨false, String.ofList body, ?_⟩
      have joined : "//" ++ String.ofList body = s := String.toList_inj.1 (by rw [shown]; simp)
      rw [← joined]
      exact .anywhere (String.ofList body)
    · refine ⟨true, String.ofList rest, ?_⟩
      have joined : "/" ++ String.ofList rest = s := String.toList_inj.1 (by rw [shown]; simp)
      rw [← joined]
      exact .root (by rwa [String.toList_ofList])
  · exact ⟨false, s, .bare slash⟩

theorem splitAnchor_slash {rest : List Char} (h : rest.head? ≠ some '/') :
    splitAnchor ('/' :: rest) = (true, rest) := by
  unfold splitAnchor
  split
  next again =>
    cases again
    exact absurd rfl h
  next shown =>
    cases shown
    rfl
  next other => exact absurd rfl (other rest)

theorem splitAnchor_of_head? {s : List Char} (h : s.head? ≠ some '/') : splitAnchor s = (false, s) := by
  unfold splitAnchor
  split
  next => exact absurd rfl h
  next => exact absurd rfl h
  next => rfl

theorem Opens.splitAnchor_eq {s body : String} {anchored : Bool} (h : Opens s anchored body) :
    splitAnchor s.toList = (anchored, body.toList) := by
  cases h with
  | anywhere =>
    rw [String.toList_append]
    rfl
  | root h =>
    rw [String.toList_append]
    exact splitAnchor_slash h
  | bare h => exact splitAnchor_of_head? h

theorem Pieces.splitWhere_eq {body : String} {pieces : List String} (h : Pieces body pieces) :
    Text.splitWhere (· == '/') body.toList = pieces.map String.toList := by
  rw [Text.splitWhere_eq_splitOn, ← h.joined, String.toList_intercalate]
  refine List.splitOn_intercalate '/' ?_ ?_
  · simpa using h.slashless
  · simpa using h.ne_nil

theorem exists_pieces (body : String) : ∃ pieces, Pieces body pieces := by
  refine ⟨(body.toList.splitOn '/').map String.ofList, ?_, ?_, ?_⟩
  · rw [← String.toList_inj, String.toList_intercalate, List.map_map]
    simp [Function.comp_def, List.intercalate_splitOn]
  · simp
  · intro s hs
    obtain ⟨p, hp, rfl⟩ := List.mem_map.1 hs
    rw [String.toList_ofList]
    exact Text.not_mem_of_mem_splitOn hp

/-- What reading comes to when the parts of the expression are known. -/
theorem parse_eq {e body : String} {anchored : Bool} {segments : List String}
    (opens : Opens (Text.trim e) anchored body) (pieces : Pieces body segments) :
    parse e = if "" ∈ segments then .error (.config s!"Invalid tag matcher expression '{e}'")
      else .ok { expression := Text.trim e, anchored, segments } := by
  have parts := opens.splitAnchor_eq
  rw [Text.trim, String.toList_ofList] at parts
  have empty : (segments.map String.toList).any (· == []) = true ↔ "" ∈ segments := by simp
  have texts : (segments.map String.toList).map String.ofList = segments := by simp [Function.comp_def]
  rw [parse]
  simp only [parts, pieces.splitWhere_eq, empty, texts]
  rfl

theorem parse_eq_ok_iff {e : String} {p : TagPath} :
    parse e = .ok p ↔ p.expression = Text.trim e ∧ Says e p.anchored p.segments := by
  constructor
  · intro h
    obtain ⟨anchored, body, opens⟩ := exists_opens (Text.trim e)
    obtain ⟨segments, pieces⟩ := exists_pieces body
    rw [parse_eq opens pieces] at h
    split at h
    · cases h
    next full =>
      cases h
      exact ⟨rfl, body, opens, pieces, full⟩
  · rintro ⟨expression, body, opens, pieces, full⟩
    rw [parse_eq opens pieces, if_neg full, ← expression]

theorem parse_of_not_says {e : String} (h : ∀ anchored segments, ¬ Says e anchored segments) :
    parse e = .error (.config s!"Invalid tag matcher expression '{e}'") := by
  obtain ⟨anchored, body, opens⟩ := exists_opens (Text.trim e)
  obtain ⟨segments, pieces⟩ := exists_pieces body
  rw [parse_eq opens pieces, if_pos]
  by_contra full
  exact h anchored segments ⟨body, opens, pieces, full⟩

/-- The star stands for any name, another segment for itself. -/
def Stands (segment name : String) : Prop := segment = "*" ∨ segment = name

/-- From the root on, the segments stand for the whole path; otherwise, for the end of it. -/
def Leads (anchored : Bool) (segments path : List String) : Prop :=
  if anchored then List.Forall₂ Stands segments path
  else ∃ front back, path = front ++ back ∧ List.Forall₂ Stands segments back

theorem segmentMatches_iff {segment name : String} : segmentMatches segment name = true ↔ Stands segment name := by
  simp [segmentMatches, Stands]

theorem forall₂_concat_iff {α β : Type} {R : α → β → Prop} {as : List α} {bs : List β} {a : α} {b : β} :
    List.Forall₂ R (as ++ [a]) (bs ++ [b]) ↔ List.Forall₂ R as bs ∧ R a b := by
  rw [← List.forall₂_reverse_iff, List.reverse_concat, List.reverse_concat, List.forall₂_cons,
    List.forall₂_reverse_iff, and_comm]

theorem all_zip_iff {segments names : List String} (long : segments.length = names.length) :
    ((segments.zip names).all fun (segment, name) => segmentMatches segment name) = true ↔
      List.Forall₂ Stands segments names := by
  rw [List.all_eq_true, List.forall₂_iff_zip, and_iff_right long]
  exact ⟨fun h s n hm => segmentMatches_iff.1 (h (s, n) hm), fun h x hx => segmentMatches_iff.2 (h hx)⟩

theorem selects_iff_selects? {p : TagPath} {ancestors : List String} {name : String} :
    p.selects ancestors name = true ↔ p.selects? ancestors name = some true := by
  rw [selects, Option.eq_some_iff_get_eq, exists_prop_of_true (p.isSome_selects? ancestors name)]

/-- The last segment stands for the element, those before it for as many of the innermost ancestors. -/
theorem selects_concat_iff {p : TagPath} {parents : List String} {last : String} (h : p.segments = parents ++ [last])
    {ancestors : List String} {name : String} :
    p.selects ancestors name = true ↔
      (parents.length ≤ ancestors.length ∧ (p.anchored = true → parents.length = ancestors.length)) ∧
        List.Forall₂ Stands parents (ancestors.drop (ancestors.length - parents.length)) ∧ Stands last name := by
  have guard : (ancestors.length + 1 < p.segments.length ||
      (p.anchored && ancestors.length + 1 != p.segments.length)) = true ↔
      ¬(parents.length ≤ ancestors.length ∧ (p.anchored = true → parents.length = ancestors.length)) := by
    rw [h, List.length_append, List.length_singleton]
    cases p.anchored with
    | false => simp
    | true =>
      simp
      omega
  rw [selects_iff_selects?, selects?]
  by_cases fits : parents.length ≤ ancestors.length ∧ (p.anchored = true → parents.length = ancestors.length)
  · have long : parents.length = (ancestors.drop (ancestors.length - parents.length)).length := by
      rw [List.length_drop]
      omega
    have read : namesFrom? ancestors (ancestors.length - parents.length) =
        some (ancestors.drop (ancestors.length - parents.length)) := if_pos (Nat.sub_le _ _)
    rw [if_neg fun out => guard.1 out fits, and_iff_right fits, h, List.getLast?_concat, ← all_zip_iff long,
      ← segmentMatches_iff]
    dsimp only
    rw [List.dropLast_concat, difference?, if_pos fits.1, Option.bind_eq_bind, Option.bind_some, read]
    cases segmentMatches last name <;> simp
  · rw [if_pos (guard.2 fits)]
    simp [fits]

theorem forall₂_root_iff {parents : List String} {last : String} {ancestors : List String} {name : String} :
    List.Forall₂ Stands (parents ++ [last]) (ancestors ++ [name]) ↔ parents.length = ancestors.length ∧
      List.Forall₂ Stands parents (ancestors.drop (ancestors.length - parents.length)) ∧ Stands last name := by
  rw [forall₂_concat_iff]
  constructor
  · rintro ⟨all, stands⟩
    refine ⟨all.length_eq, ?_, stands⟩
    rwa [all.length_eq, Nat.sub_self, List.drop_zero]
  · rintro ⟨long, all, stands⟩
    rw [long, Nat.sub_self, List.drop_zero] at all
    exact ⟨all, stands⟩

theorem forall₂_end_iff {parents : List String} {last : String} {ancestors : List String} {name : String} :
    (∃ front back, ancestors ++ [name] = front ++ back ∧ List.Forall₂ Stands (parents ++ [last]) back) ↔
      parents.length ≤ ancestors.length ∧
        List.Forall₂ Stands parents (ancestors.drop (ancestors.length - parents.length)) ∧ Stands last name := by
  constructor
  · rintro ⟨front, back, path, all⟩
    obtain rfl | ⟨inner, innermost, rfl⟩ := List.eq_nil_or_concat back
    · exact absurd all.length_eq (by simp)
    rw [List.concat_eq_append] at path all
    rw [← List.append_assoc] at path
    obtain ⟨rfl, same⟩ := List.append_inj' path rfl
    cases same
    obtain ⟨all, stands⟩ := forall₂_concat_iff.1 all
    refine ⟨?_, ?_, stands⟩
    · rw [List.length_append, all.length_eq]
      exact Nat.le_add_left _ _
    · rwa [List.length_append, all.length_eq, Nat.add_sub_cancel, List.drop_left]
  · rintro ⟨-, all, stands⟩
    refine ⟨ancestors.take (ancestors.length - parents.length), _, ?_, forall₂_concat_iff.2 ⟨all, stands⟩⟩
    rw [← List.append_assoc, List.take_append_drop]

theorem selects_iff {p : TagPath} (some_segment : p.segments ≠ []) {ancestors : List String} {name : String} :
    p.selects ancestors name = true ↔ Leads p.anchored p.segments (ancestors ++ [name]) := by
  obtain ⟨parents, last, h⟩ := (List.eq_nil_or_concat p.segments).resolve_left some_segment
  rw [List.concat_eq_append] at h
  rw [selects_concat_iff h, Leads, h]
  cases p.anchored with
  | true =>
    rw [if_pos rfl, forall₂_root_iff]
    exact and_congr_left fun _ => ⟨fun fits => fits.2 rfl, fun long => ⟨long.le, fun _ => long⟩⟩
  | false =>
    rw [if_neg Bool.false_ne_true, forall₂_end_iff]
    exact and_congr_left fun _ => and_iff_left fun impossible => absurd impossible Bool.false_ne_true

theorem Says.segments_ne_nil {e : String} {anchored : Bool} {segments : List String} (h : Says e anchored segments) :
    segments ≠ [] := by
  obtain ⟨_, _, pieces, _⟩ := h
  exact pieces.ne_nil

theorem trim_slashes (e : String) : Text.trim ("//" ++ Text.trim e) = "//" ++ Text.trim e := by
  have slash : Text.isWhiteSpace '/' = false := by decide
  have kept : ∀ c ∈ ['/', '/'], Text.isWhiteSpace c = false :=
    List.forall_mem_cons.2 ⟨slash, List.forall_mem_singleton.2 slash⟩
  rw [← String.toList_inj, Text.trim, String.toList_ofList, String.toList_append, Text.trim, String.toList_ofList,
    String.toList_ofList]
  exact Text.trimChars_append_trimChars kept e.toList

/-- Two slashes in front of a path that may start anywhere change nothing of what it said. -/
theorem says_slashes_iff {e : String} (h : (Text.trim e).toList.head? ≠ some '/') {anchored : Bool}
    {segments : List String} : Says ("//" ++ Text.trim e) anchored segments ↔ Says e anchored segments := by
  have same {anchored body} : Opens ("//" ++ Text.trim e) anchored body ↔ Opens (Text.trim e) anchored body := by
    constructor
    · intro opens
      have parts := opens.splitAnchor_eq
      have parts' := (Opens.anywhere (Text.trim e)).splitAnchor_eq
      obtain ⟨rfl, shown⟩ := Prod.mk.inj (parts.symm.trans parts')
      rw [String.toList_inj.1 shown]
      exact .bare h
    · intro opens
      have parts := opens.splitAnchor_eq
      obtain ⟨rfl, shown⟩ := Prod.mk.inj (parts.symm.trans (splitAnchor_of_head? h))
      rw [String.toList_inj.1 shown]
      exact .anywhere _
  unfold Says
  rw [trim_slashes]
  exact exists_congr fun _ => and_congr_left fun _ => same

theorem says_trim_iff {e : String} {anchored : Bool} {segments : List String} :
    Says (Text.trim e) anchored segments ↔ Says e anchored segments := by
  unfold Says
  rw [Text.trim_trim]

/-- What becomes of an expression. -/
structure Reading (e : String) : Prop where
  read : (∃ p, parse e = .ok p) ↔ ∃ anchored segments, Says e anchored segments
  refused : (¬∃ p, parse e = .ok p) → parse e = .error (.config s!"Invalid tag matcher expression '{e}'")
  answered : ∀ p ancestors name, parse e = .ok p → p.selects? ancestors name = some (p.selects ancestors name)
  selects : ∀ p, parse e = .ok p → ∃ segments, Says e p.anchored segments ∧
    ∀ ancestors name, p.selects ancestors name = true ↔ Leads p.anchored segments (ancestors ++ [name])
  slashes : (Text.trim e).toList.head? ≠ some '/' →
    ((∃ q, parse ("//" ++ Text.trim e) = .ok q) ↔ ∃ p, parse e = .ok p) ∧
    ∀ p q, parse e = .ok p → parse ("//" ++ Text.trim e) = .ok q → q.selects = p.selects
  displayed : ∀ p, parse e = .ok p → parse p.expression = .ok p

theorem exists_parse_iff {e : String} : (∃ p, parse e = .ok p) ↔ ∃ anchored segments, Says e anchored segments := by
  constructor
  · rintro ⟨p, h⟩
    exact ⟨p.anchored, p.segments, (parse_eq_ok_iff.1 h).2⟩
  · rintro ⟨anchored, segments, said⟩
    exact ⟨⟨Text.trim e, anchored, segments⟩, parse_eq_ok_iff.2 ⟨rfl, said⟩⟩

/-- What an expression said is determined. -/
theorem Says.unique {e : String} {a b : Bool} {s t : List String} (h : Says e a s) (h' : Says e b t) :
    a = b ∧ s = t := by
  have parsed : parse e = .ok ⟨Text.trim e, a, s⟩ := parse_eq_ok_iff.2 ⟨rfl, h⟩
  have parsed' : parse e = .ok ⟨Text.trim e, b, t⟩ := parse_eq_ok_iff.2 ⟨rfl, h'⟩
  rw [parsed, Except.ok.injEq] at parsed'
  exact ⟨congrArg anchored parsed', congrArg segments parsed'⟩

/-- An expression is read if its segments are not empty; it selects the elements that its segments lead to, and does so
as well with two slashes in front or as it is displayed. -/
theorem selects_by_segments (e : String) : Reading e where
  read := exists_parse_iff
  refused h := parse_of_not_says fun anchored segments said => h (exists_parse_iff.2 ⟨anchored, segments, said⟩)
  answered p ancestors name _ := (Option.some_get _).symm
  selects p h := ⟨p.segments, (parse_eq_ok_iff.1 h).2, fun _ _ => selects_iff (parse_eq_ok_iff.1 h).2.segments_ne_nil⟩
  slashes h := by
    refine ⟨?_, fun p q hp hq => ?_⟩
    · rw [exists_parse_iff, exists_parse_iff]
      exact exists₂_congr fun _ _ => says_slashes_iff h
    · have said := (parse_eq_ok_iff.1 hp).2
      have said' := (parse_eq_ok_iff.1 hq).2
      have same := said.unique (says_slashes_iff h |>.1 said')
      funext ancestors name
      rw [Bool.eq_iff_iff, selects_iff said.segments_ne_nil, selects_iff said'.segments_ne_nil, same.1, same.2]
  displayed p h := by
    obtain ⟨expression, said⟩ := parse_eq_ok_iff.1 h
    rw [expression]
    exact parse_eq_ok_iff.2 ⟨by rw [Text.trim_trim, expression], says_trim_iff.2 said⟩

/-- The end of the path is enough without a slash, and not with one. -/
example : (parse " b/* ").map (·.selects ["a", "b"] "c") = .ok true ∧
    (parse "/b/*").map (·.selects ["a", "b"] "c") = .ok false := by decide

end Markup.TagPath
end Emend
