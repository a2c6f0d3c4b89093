import Emend.Regex.Brackets
import Emend.Text.Word

/-! # Reading regular expressions

Groups are kept on a stack; each character begins a part, repeats the last part, or opens, divides or closes
a group.
-/

namespace Emend.Regex

open Text (Rest Step)

/-- A pattern, with the names of its capture groups. Group 0 is the whole match. -/
structure Parsed where
  pattern : Pattern
  groups : Nat
  names : List (String × Nat)

/-- A group that is being read; `branches` and `parts` are what surrounds it, the last one first. -/
structure OpenGroup where
  kind : GroupKind
  extended : Bool
  branches : List Pattern
  parts : List Pattern

structure Reader where
  extended : Bool := false
  groups : Nat := 1
  names : List (String × Nat) := []
  opened : List OpenGroup := []
  branches : List Pattern := []
  parts : List Pattern := []

namespace Reader

def concat (parts : List Pattern) : Pattern :=
  match parts with
  | [] => .empty
  | [p] => p
  | parts => .concat parts.reverse

def finish (r : Reader) : Pattern :=
  match r.branches with
  | [] => concat r.parts
  | branches => .alternation (concat r.parts :: branches).reverse

def push (r : Reader) (p : Pattern) : Reader := { r with parts := p :: r.parts }

def divide (r : Reader) : Reader := { r with branches := concat r.parts :: r.branches, parts := [] }

def close (r : Reader) : Except Fault Reader :=
  match r.opened with
  | [] => .error .groupNotOpened
  | g :: opened =>
    .ok { r with
      extended := g.extended, opened, branches := g.branches
      parts := .group g.kind r.finish :: g.parts }

def openGroup (r : Reader) (kind : GroupKind) (extended : Bool) : Reader :=
  { r with
    extended, opened := ⟨kind, r.extended, r.branches, r.parts⟩ :: r.opened
    branches := [], parts := [] }

def openCapture (r : Reader) : Reader :=
  { r.openGroup (.capture r.groups) r.extended with groups := r.groups + 1 }

def «repeat» (r : Reader) (min : Nat) (max : Option Nat) (greedy : Bool) : Except Fault Reader :=
  match r.parts with
  | [] | .empty :: _ | .setFlags _ :: _ => .error .nothingToRepeat
  | p :: parts => .ok { r with parts := .repeated min max greedy p :: parts }

end Reader

def flag? : Char → Option Flag
  | 'i' => some .caseInsensitive
  | 'm' => some .multiLine
  | 's' => some .dotAll
  | 'U' => some .swapGreed
  | 'u' => some .unicode
  | 'R' => some .crlf
  | 'x' => some .extended
  | _ => none

/-- Flags as written: those behind the one `-` are switched off, and none comes twice. -/
def readFlags (on : Bool) : List Char → Except Fault FlagChanges
  | [] => .ok []
  | '-' :: s => if on && s ≠ [] then readFlags false s else .error .badFlags
  | c :: s =>
    match flag? c with
    | none => .error .badFlags
    | some f => do
      let changes ← readFlags on s
      if changes.any (·.1 == f) then throw .badFlags
      return (f, on) :: changes

def switched? (changes : FlagChanges) (f : Flag) : Option Bool := changes.lookup f

def isGroupName : List Char → Bool
  | [] => false
  | c :: s =>
    (c == '_' || Text.isAlphabetic c) &&
      s.all fun c => c == '_' || c == '.' || c == '[' || c == ']' || Text.isAlphanumeric c

def openNamed (r : Reader) (s : List Char) : Except Fault (Reader × Rest s) :=
  match Text.readTo '>' s with
  | none => .error .badGroupName
  | some name =>
    let text := String.ofList name.value
    if !isGroupName name.value || r.names.any (·.1 == text) then .error .badGroupName
    else .ok ({ r.openCapture with names := (text, r.groups) :: r.names }, name.toRest)

def openFlags (r : Reader) (s : List Char) : Except Fault (Reader × Rest s) := do
  let isFlag (c : Char) := c != ':' && c != ')'
  let rest := (Rest.all s).dropWhile isFlag
  match rest.text with
  | [] => throw .badFlags
  | c :: _ =>
    let changes ← readFlags true (s.takeWhile isFlag)
    let extended := (switched? changes .extended).getD r.extended
    if c = ':' then return (r.openGroup (.flags changes) extended, rest.tail)
    else if changes.isEmpty then throw .nothingToRepeat
    else return ({ r.push (.setFlags changes) with extended }, rest.tail)

def openGroup (r : Reader) (s : List Char) : Except Fault (Reader × Rest s) :=
  let body := skipped r.extended s
  if ["?=", "?!", "?<=", "?<!"].any fun p => Text.startsWith body.text p.toList then .error .lookAround
  else
    match (body.after? ['?', 'P', '<']).or (body.after? ['?', '<']), body.after? ['?'] with
    | some inside, _ => (openNamed r inside.text).map fun (r, t) => (r, inside.trans t)
    | none, some inside => (openFlags r inside.text).map fun (r, t) => (r, inside.trans t)
    | none, none => .ok (r.openCapture, body)

def count? (s : List Char) : Option Nat :=
  let digits := Text.trimChars s
  if digits.isEmpty || !digits.all Char.isDigit then none
  else
    let n := digits.foldl (fun n c => n * 10 + (c.toNat - 48)) 0
    if n < Nat.pow 2 32 then some n else none

def bounds? (s : List Char) : Option (Nat × Option Nat) :=
  match Text.breakOn? [','] s with
  | none => (count? s).map fun n => (n, some n)
  | some (low, []) => (count? low).map fun n => (n, none)
  | some (low, high) => do
    let low ← count? low
    let high ← count? high
    if low ≤ high then some (low, some high) else none

def readGreed (s : List Char) : Bool × Rest s :=
  match (Rest.all s).after? ['?'] with
  | some rest => (false, rest)
  | none => (true, .all s)

/-- One part from the front of a text that does not begin with a blank. -/
def readPart (r : Reader) : (s : List Char) → Except Fault (Step Reader s)
  | [] => .error .nothingToRepeat
  | '(' :: s => (openGroup r s).map fun (r, t) => t.step r
  | ')' :: s => r.close.map (Rest.all s).step
  | '|' :: s => .ok ((Rest.all s).step r.divide)
  | '[' :: s => do
    let (o, t) ← OpenSet.start r.extended s
    let (p, u) ← readClass r.extended [] o t.text
    return (t.trans u).step (r.push p)
  | '?' :: s => do
    let (greedy, t) := readGreed s
    return t.step (← r.repeat 0 (some 1) greedy)
  | '*' :: s => do
    let (greedy, t) := readGreed s
    return t.step (← r.repeat 0 none greedy)
  | '+' :: s => do
    let (greedy, t) := readGreed s
    return t.step (← r.repeat 1 none greedy)
  | '\x7b' :: s =>
    match braced r.extended false s with
    | none => .error .badCount
    | some body =>
      match bounds? body.value with
      | none => .error .badCount
      | some (min, max) => do
        let start := skipMore r.extended body.toRest
        let (greedy, t) := readGreed start.text
        return (start.trans t).step (← r.repeat min max greedy)
  | '.' :: s => .ok ((Rest.all s).step (r.push .dot))
  | '^' :: s => .ok ((Rest.all s).step (r.push (.anchor .lineStart)))
  | '$' :: s => .ok ((Rest.all s).step (r.push (.anchor .lineEnd)))
  | '\\' :: s => (readEscape r.extended s).map fun st =>
    (st.map fun p => r.push (toPattern p)).behind
  | c :: s => .ok ((Rest.all s).step (r.push (.char c false)))
where
  toPattern : Primitive → Pattern
    | .char c byte => .char c byte
    | .anchor a => .anchor a
    | .perl kind negated => .perl kind negated
    | .property query negated => .property query negated

def readParts (r : Reader) (s : List Char) : Except Fault Reader :=
  match hs : skip r.extended s with
  | [] => .ok r
  | c :: rest =>
    match readPart r (c :: rest) with
    | .error e => .error e
    | .ok st =>
      have := Nat.lt_of_lt_of_le st.shorter (length_le_of_skip hs)
      readParts st.value st.rest
termination_by s.length
decreasing_by assumption

def maxNesting : Nat := 250

def parsePattern (s : List Char) : Except Fault Parsed := do
  let r ← readParts {} s
  if !r.opened.isEmpty then throw .groupNotClosed
  if maxNesting < r.finish.nesting then throw .nestedTooDeep
  return { pattern := r.finish, groups := r.groups, names := r.names.reverse }

end Emend.Regex
