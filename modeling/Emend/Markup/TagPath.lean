import Emend.Error
import Emend.Text.Blank
import Emend.Text.Search

/-! # Tag paths

An expression selects elements by their names on the way from the root: `/a/b` from the root on, `//a/b`
or `a/b` wherever it is. `*` stands for any name.
-/

namespace Emend.Markup

structure TagPath where
  expression : String
  anchored : Bool
  segments : List String
deriving DecidableEq

namespace TagPath

/-- Whether the path starts at the root, and what follows the slashes that say so. -/
def splitAnchor (s : List Char) : Bool × List Char :=
  match s with
  | '/' :: '/' :: rest => (false, rest)
  | '/' :: rest => (true, rest)
  | s => (false, s)

def parse (expression : String) : Except Error TagPath :=
  let trimmed := Text.trimChars expression.toList
  let (anchored, body) := splitAnchor trimmed
  let segments := Text.splitWhere (· == '/') body
  if segments.any (· == []) then
    .error (.config s!"Invalid tag matcher expression '{expression}'")
  else .ok { expression := String.ofList trimmed, anchored, segments := segments.map String.ofList }

def segmentMatches (segment name : String) : Bool := segment == "*" || segment == name

/-- `a - b`, unless that is negative. -/
def difference? (a b : Nat) : Option Nat := if b ≤ a then some (a - b) else none

/-- The names from the `n`th on, unless there are fewer. -/
def namesFrom? (names : List String) (n : Nat) : Option (List String) :=
  if n ≤ names.length then some (names.drop n) else none

/-- Whether the path leads to an element called `name` inside elements called `ancestors`, outermost first; no answer
where the ancestors are counted below zero or read beyond their end. -/
def selects? (p : TagPath) (ancestors : List String) (name : String) : Option Bool :=
  let depth := ancestors.length + 1
  if depth < p.segments.length || (p.anchored && depth != p.segments.length) then some false
  else
    match p.segments.getLast? with
    | none => some false
    | some last =>
      let parents := p.segments.dropLast
      if !segmentMatches last name then some false
      else do
        let offset ← difference? ancestors.length parents.length
        let innermost ← namesFrom? ancestors offset
        return (parents.zip innermost).all fun (segment, ancestor) => segmentMatches segment ancestor

theorem isSome_selects? (p : TagPath) (ancestors : List String) (name : String) :
    (p.selects? ancestors name).isSome = true := by
  unfold selects?
  dsimp only
  split
  · rfl
  next deep =>
    split
    · rfl
    split
    · rfl
    -- the depth guard is what keeps both offsets in range
    have long : p.segments.dropLast.length ≤ ancestors.length := by
      rw [List.length_dropLast]
      simp only [Bool.or_eq_true, decide_eq_true_eq, not_or, Nat.not_lt] at deep
      omega
    rw [difference?, if_pos long, Option.bind_eq_bind, Option.bind_some, namesFrom?, if_pos (Nat.sub_le _ _)]
    rfl

def selects (p : TagPath) (ancestors : List String) (name : String) : Bool :=
  (p.selects? ancestors name).get (p.isSome_selects? ancestors name)

end TagPath
end Emend.Markup
