import Emend.Proofs.Markup.ReparseTree
import Emend.Proofs.Outcome

/-! # What the readers accept

The readers of single constructs, read backwards. Where one succeeds, its checks have passed and the node holds
what stood between its marks. Where the opening characters choose a construct, that construct stands there and its
own reader has taken what follows them. Whatever holds of the nodes that are read is shown from here, construct by
construct.
-/

namespace Emend.Markup

open Text (Step)

theorem of_readUntil_eq_some {stop : List Char} {hs : stop ≠ []} {s : List Char} {x : Step String s}
    (h : Text.readUntil stop hs s = some x) : Text.breakOn? stop s = some (x.value.toList, x.rest) := by
  unfold Text.readUntil at h
  split at h
  · cases h
  next text rest hb =>
    cases h
    change _ = some ((String.ofList text).toList, rest)
    rwa [String.toList_ofList]

theorem of_readComment_eq_ok {leading : String} {start s : List Char} {x : Step Comment s}
    (h : readComment leading start s = .ok x) :
    ∃ text : String, Text.breakOn? ['-', '-', '>'] s = some (text.toList, x.rest) ∧
      x.value = { id := .none, leading, text } := by
  unfold readComment at h
  split at h
  · cases h
  next text ht =>
    cases h
    exact ⟨text.value, of_readUntil_eq_some ht, rfl⟩

theorem of_readCdata_eq_ok {leading : String} {start s : List Char} {x : Step CharData s}
    (h : readCdata leading start s = .ok x) :
    ∃ text : String, Text.breakOn? [']', ']', '>'] s = some (text.toList, x.rest) ∧
      x.value = { id := .none, leading, cdata := true, text } := by
  unfold readCdata at h
  split at h
  · cases h
  next text ht =>
    cases h
    exact ⟨text.value, of_readUntil_eq_some ht, rfl⟩

theorem of_readInstruction_eq_ok {leading : String} {start s : List Char} {x : Step Instruction s}
    (h : readInstruction leading start s = .ok x) :
    nameOf s ≠ [] ∧ ∃ content : String, Text.breakOn? ['?', '>'] (afterName s) = some (content.toList, x.rest) ∧
      x.value = { id := .none, leading, target := String.ofList (nameOf s), content } := by
  unfold readInstruction at h
  split at h
  · cases h
  next hn =>
  split at h
  · cases h
  next content hc =>
    cases h
    exact ⟨hn, content.value, of_readUntil_eq_some hc, rfl⟩

theorem of_readDocType_eq_ok {leading : String} {start s : List Char} {x : Step DocType s}
    (h : readDocType leading start s = .ok x) :
    ∃ body : String, breakDocType none 0 s = some (body.toList, x.rest) ∧
      x.value = { id := .none, leading, body } := by
  unfold readDocType at h
  split at h
  · cases h
  next body rest hb =>
    cases h
    refine ⟨String.ofList body, ?_, rfl⟩
    rwa [String.toList_ofList]

theorem of_readClosing_eq_ok {leading expected : String} {start s : List Char} {x : Step Closing s}
    (h : readClosing leading expected start s = .ok x) :
    afterBlanks (afterName s) = '>' :: x.rest ∧ String.ofList (nameOf s) = expected ∧
      x.value = {
        id := .none
        leading
        name := String.ofList (nameOf s)
        beforeClose := String.ofList (blanksOf (afterName s)) } := by
  unfold readClosing at h
  split at h
  case h_2 => cases h
  next rest he =>
  dsimp only at h
  split at h
  next hn =>
    cases h
    exact ⟨he, hn, rfl⟩
  · cases h

theorem Quote.char_of_ofChar? {c : Char} {q : Quote} (h : Quote.ofChar? c = some q) : q.char = c := by
  unfold Quote.ofChar? at h
  split at h <;> cases h <;> rfl

theorem of_readAttribute_eq_ok {leading : String} {s : List Char} {x : Step Attribute s}
    (h : readAttribute leading s = .ok x) :
    nameOf s ≠ [] ∧ ∃ (s₁ s₂ : List Char) (quote : Quote) (rawValue : String),
      afterBlanks (afterName s) = '=' :: s₁ ∧ afterBlanks s₁ = quote.char :: s₂ ∧
      Text.breakOn? [quote.char] s₂ = some (rawValue.toList, x.rest) ∧ '<' ∉ rawValue.toList ∧
      x.value = {
        id := .none
        leading
        markers := []
        key := String.ofList (nameOf s)
        beforeEquals := String.ofList (blanksOf (afterName s))
        afterEquals := String.ofList (blanksOf s₁)
        quote
        rawValue } := by
  unfold readAttribute at h
  split at h
  · cases h
  next hn =>
  split at h
  case h_2 => cases h
  next s₁ h₁ =>
  split at h
  · cases h
  next c s₂ h₂ =>
  split at h
  · cases h
  next q hq =>
  split at h
  · cases h
  next value hv =>
  split at h
  · cases h
  next hm =>
  cases h
  rw [← Quote.char_of_ofChar? hq] at h₂
  exact ⟨hn, s₁, s₂, q, value.value, h₁, h₂, of_readUntil_eq_some hv, by simpa using hm, rfl⟩

theorem of_readStartTag_eq_ok {leading : String} {start s : List Char} {x : Step Started s}
    (h : readStartTag leading start s = .ok x) :
    nameOf s ≠ [] ∧ ∃ found, readStartTagEnd (String.ofList (nameOf s)) start [] (afterName s) = .ok found ∧
      x.value = startedTag leading start (String.ofList (nameOf s)) found.value ∧ x.rest = found.rest := by
  unfold readStartTag at h
  dsimp only at h
  split at h
  · cases h
  next hn =>
  split at h
  · cases h
  next found hf =>
  cases h
  exact ⟨hn, found, hf, rfl, rfl⟩

/-- In the content of `current` the text begins with the turn and leaves the rest. -/
inductive TurnRead (leading : String) (current : OpenTag) (depth : Nat) : List Char → Turn → List Char → Prop where
  | close {s : List Char} {x : Step Closing s}
      (read : readClosing leading current.name ('<' :: '/' :: s) s = .ok x) :
      TurnRead leading current depth ('<' :: '/' :: s) (.close x.value) x.rest
  | comment {s : List Char} {x : Step Comment s} (read : readComment leading ("<!--".toList ++ s) s = .ok x) :
      TurnRead leading current depth ("<!--".toList ++ s) (.item (.comment x.value)) x.rest
  | cdata {s : List Char} {x : Step CharData s} (read : readCdata leading ("<![CDATA[".toList ++ s) s = .ok x) :
      TurnRead leading current depth ("<![CDATA[".toList ++ s) (.item (.charData x.value)) x.rest
  | instruction {s : List Char} {x : Step Instruction s} (read : readInstruction leading ('<' :: '?' :: s) s = .ok x) :
      TurnRead leading current depth ('<' :: '?' :: s) (.item (.instruction x.value)) x.rest
  | start {s : List Char} {x : Step Started s} (read : readStartTag leading ('<' :: s) s = .ok x)
      (shallow : depth < maxDepth) (undeclared : s.head? ≠ some '!') :
      TurnRead leading current depth ('<' :: s) x.value.turn x.rest

theorem turnRead_of_readTurn {leading : String} {current : OpenTag} {depth : Nat} {s : List Char} {x : Step Turn s}
    (h : readTurn leading current depth s = .ok x) : TurnRead leading current depth s x.value x.rest := by
  unfold readTurn at h
  split at h
  next r hr =>
    obtain rfl := Text.after?_eq_some_iff.1 hr
    obtain ⟨y, hy, ⟨⟩⟩ := bind_eq_ok.1 h
    exact .close hy
  split at h
  next r hr =>
    obtain rfl := Text.after?_eq_some_iff.1 hr
    obtain ⟨y, hy, ⟨⟩⟩ := bind_eq_ok.1 h
    exact .comment hy
  split at h
  next r hr =>
    obtain rfl := Text.after?_eq_some_iff.1 hr
    obtain ⟨y, hy, ⟨⟩⟩ := bind_eq_ok.1 h
    exact .cdata hy
  split at h
  next r hr =>
    obtain rfl := Text.after?_eq_some_iff.1 hr
    obtain ⟨y, hy, ⟨⟩⟩ := bind_eq_ok.1 h
    exact .instruction hy
  split at h
  · cases h
  next hm =>
  split at h
  · cases h
  next hd =>
  split at h
  · cases h
  next r hr =>
  obtain rfl := Text.after?_eq_some_iff.1 hr
  obtain ⟨y, hy, ⟨⟩⟩ := bind_eq_ok.1 h
  refine .start hy (Nat.lt_of_not_le hd) fun hc => ?_
  -- what begins so is a declaration, which the reader has turned away before
  obtain ⟨r, rfl⟩ := List.head?_eq_some_iff.1 hc
  exact hm rfl

/-- Around the root the text begins with the item and leaves the rest. -/
inductive MiscRead (leading : String) : List Char → Misc → List Char → Prop where
  | comment {s : List Char} {x : Step Comment s} (read : readComment leading ("<!--".toList ++ s) s = .ok x) :
      MiscRead leading ("<!--".toList ++ s) (.comment x.value) x.rest
  | instruction {s : List Char} {x : Step Instruction s} (read : readInstruction leading ('<' :: '?' :: s) s = .ok x) :
      MiscRead leading ('<' :: '?' :: s) (.instruction x.value) x.rest
  | docType {s : List Char} {x : Step DocType s} (read : readDocType leading ("<!DOCTYPE".toList ++ s) s = .ok x) :
      MiscRead leading ("<!DOCTYPE".toList ++ s) (.docType x.value) x.rest

theorem miscRead_of_readMisc {leading : String} {s : List Char} {x : Step Misc s}
    (h : readMisc leading s = .ok (some x)) :
    MiscRead leading s x.value x.rest ∧ x.value.isDocType = false := by
  unfold readMisc at h
  split at h
  next r hr =>
    obtain rfl := Text.after?_eq_some_iff.1 hr
    obtain ⟨y, hy, ⟨⟩⟩ := bind_eq_ok.1 h
    exact ⟨.comment hy, rfl⟩
  split at h
  next r hr =>
    obtain rfl := Text.after?_eq_some_iff.1 hr
    obtain ⟨y, hy, ⟨⟩⟩ := bind_eq_ok.1 h
    exact ⟨.instruction hy, rfl⟩
  · cases h

theorem miscRead_of_readPrologItem {leading : String} {s : List Char} {x : Step Misc s}
    (h : readPrologItem leading s = .ok (some x)) : MiscRead leading s x.value x.rest := by
  unfold readPrologItem at h
  split at h
  next r hr =>
    obtain rfl := Text.after?_eq_some_iff.1 hr
    obtain ⟨y, hy, ⟨⟩⟩ := bind_eq_ok.1 h
    exact .docType hy
  · exact (miscRead_of_readMisc h).1

/-- The root is one tag, or what its start tag opens. -/
theorem startTag_of_readRoot {leading : String} {s rest : List Char} {tag : Tag}
    (h : readRoot leading s = .ok (tag, rest)) :
    ∃ started, readStartTag leading s (s.drop 1) = .ok started ∧
      (started.value = .whole tag ∧ started.rest = rest ∨
        ∃ o, started.value = .opened o ∧ readContent o [] started.rest = .ok (tag, rest)) := by
  unfold readRoot at h
  split at h
  · cases h
  next started hs =>
  refine ⟨started, hs, ?_⟩
  split at h
  next whole hw =>
    cases h
    exact .inl ⟨hw, rfl⟩
  next o ho => exact .inr ⟨o, ho, h⟩

theorem ne_ok_none_of_bind {α : Type} {s r : List Char} {read : Except Fault (Step α r)} {f : α → Misc}
    {le : r.length ≤ s.length} :
    (do let y ← read; return some ((y.map f).widen le)) ≠ Except.ok (none : Option (Step Misc s)) := by
  intro h
  obtain ⟨_, _, hx⟩ := bind_eq_ok.1 h
  cases hx

/-- What is no comment and no instruction begins as none. -/
theorem after?_of_readMisc {leading : String} {s : List Char} (h : readMisc leading s = .ok none) :
    Text.after? ['<', '!', '-', '-'] s = none ∧ Text.after? ['<', '?'] s = none := by
  unfold readMisc at h
  split at h
  · exact absurd h ne_ok_none_of_bind
  next noComment =>
  split at h
  · exact absurd h ne_ok_none_of_bind
  next noInstruction => exact ⟨noComment, noInstruction⟩

end Emend.Markup
