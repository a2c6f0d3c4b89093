import Emend.Text.Step

/-! # File patterns

`?` stands for one character, `*` for any run of characters, slashes included, and `[…]` or `[!…]` for one
character in or outside a set. `**` stands for whole components of a path: nothing, or a run that ends with
a slash, or all that is left.
-/

namespace Emend

namespace Glob

abbrev CharSet := List (Char × Char)

def CharSet.has (set : CharSet) (c : Char) : Bool := set.any fun (a, b) => a ≤ c && c ≤ b

inductive Token where
  | char (c : Char)
  | anyChar
  | anyOf (set : CharSet)
  | noneOf (set : CharSet)
  | anySequence
  | anyComponents
deriving DecidableEq

inductive Cause where
  | stars
  | component
  | range
deriving DecidableEq

def Cause.message : Cause → String
  | stars => "wildcards are either regular `*` or recursive `**`"
  | component => "recursive wildcards must form a single path component"
  | range => "invalid range pattern"

structure SyntaxFault where
  position : Nat
  cause : Cause
deriving DecidableEq

def SyntaxFault.message (f : SyntaxFault) : String :=
  s!"Pattern syntax error near position {f.position}: {f.cause.message}"

def charSet : List Char → CharSet
  | a :: '-' :: b :: rest => (a, b) :: charSet rest
  | a :: rest => (a, a) :: charSet rest
  | [] => []

/-- The set in front of its closing bracket. The first character counts even if it is a bracket. -/
def bracket? : (s : List Char) → Option (Text.Step CharSet s)
  | [] => none
  | c :: s =>
    match h : Text.breakOn? [']'] s with
    | none => none
    | some (inside, rest) =>
      some ⟨charSet (c :: inside), rest, Nat.lt_succ_of_lt (Text.length_lt_of_breakOn? h (by simp))⟩

/-- A run of `**` directly after another one, with more in front of them, adds nothing. -/
def pushComponents : List Token → List Token
  | .anyComponents :: t :: ts => .anyComponents :: t :: ts
  | ts => .anyComponents :: ts

/-- The tokens of `s`, which stands at `position` behind the character `before`; those read so far are in
`read`, the last one first. -/
def scan (before : Option Char) (position : Nat) (read : List Token) (s : List Char) :
    Except SyntaxFault (List Token) :=
  match s with
  | [] => .ok read.reverse
  | '?' :: s => scan (some '?') (position + 1) (.anyChar :: read) s
  | '*' :: '*' :: '*' :: _ => .error ⟨position + 2, .stars⟩
  | '*' :: '*' :: s =>
    if before = none ∨ before = some '/' then
      match s with
      | [] => .ok (pushComponents read).reverse
      | '/' :: s => scan (some '/') (position + 3) (pushComponents read) s
      | _ => .error ⟨position + 2, .component⟩
    else .error ⟨position - 1, .component⟩
  | '*' :: s => scan (some '*') (position + 1) (.anySequence :: read) s
  | '[' :: '!' :: s =>
    match bracket? s with
    | none => .error ⟨position, .range⟩
    | some set =>
      have := set.shorter
      scan (some ']') (position + 2 + (s.length - set.rest.length)) (.noneOf set.value :: read) set.rest
  | '[' :: s =>
    match bracket? s with
    | none => .error ⟨position, .range⟩
    | some set =>
      have := set.shorter
      scan (some ']') (position + 1 + (s.length - set.rest.length)) (.anyOf set.value :: read) set.rest
  | c :: s => scan (some c) (position + 1) (.char c :: read) s
termination_by s.length
decreasing_by
  all_goals simp only [List.length_cons]
  all_goals omega

def someEnd (p : List Char → Bool) : List Char → Bool
  | [] => p []
  | c :: s => p (c :: s) || someEnd p s

/-- Whether `p` holds of what follows some slash, or of the end. -/
def someComponent (p : List Char → Bool) : List Char → Bool
  | [] => p []
  | c :: s => (c == '/' && p s) || someComponent p s

def accepts : List Token → List Char → Bool
  | [], s => s.isEmpty
  | .anySequence :: ts, s => someEnd (accepts ts) s
  | .anyComponents :: ts, s => accepts ts s || someComponent (accepts ts) s
  | .char _ :: _, [] | .anyChar :: _, [] | .anyOf _ :: _, [] | .noneOf _ :: _, [] => false
  | .char a :: ts, c :: s => a == c && accepts ts s
  | .anyChar :: ts, _ :: s => accepts ts s
  | .anyOf set :: ts, c :: s => set.has c && accepts ts s
  | .noneOf set :: ts, c :: s => !set.has c && accepts ts s

end Glob

structure Glob where
  tokens : List Glob.Token
deriving DecidableEq

namespace Glob

def parse (pattern : String) : Except SyntaxFault Glob := (scan none 0 [] pattern.toList).map (⟨·⟩)

def selects (g : Glob) (text : String) : Bool := accepts g.tokens text.toList

end Glob
end Emend
