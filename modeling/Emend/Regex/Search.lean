import Emend.Regex.Program

/-! # Searching

All ways to go on are followed at once, in order of preference, and each instruction at most once between two
characters. A match is final when nothing that is preferred to it is left.
-/

namespace Emend.Regex

/-- Positions stored by the way taken, counted in characters from the start of the text. -/
abbrev Slots := Array (Option Nat)

structure Thread where
  instr : Nat
  slots : Slots

/-- Threads that wait for the next character, the last one first, and the instructions passed between the two
characters. -/
structure Frontier where
  threads : List Thread := []
  passed : Array Bool

/-- A position in a text: its neighbours, and how many characters are before it. -/
structure Position where
  before : Option Char
  after : Option Char
  index : Nat

/-- Follows a thread to where it needs the next character. No path is longer than the program. -/
def follow (r : Regex) (p : Position) : (fuel : Nat) → Nat → Slots → Frontier → Frontier
  | 0, _, _, f => f
  | fuel + 1, i, slots, f =>
    if f.passed.getD i true then f
    else
      let f := { f with passed := f.passed.setIfInBounds i true }
      match r.code.getD i .found with
      | .one .. | .found => { f with threads := ⟨i, slots⟩ :: f.threads }
      | .look l next => if l.holds p.before p.after then follow r p fuel next slots f else f
      | .save slot next => follow r p fuel next (slots.setIfInBounds slot (some p.index)) f
      | .choose first second => follow r p fuel second slots (follow r p fuel first slots f)

def Frontier.new (r : Regex) : Frontier := { passed := Array.replicate r.code.size false }

def Frontier.add (r : Regex) (p : Position) (f : Frontier) (i : Nat) (slots : Slots) : Frontier :=
  follow r p (r.code.size + 1) i slots f

/-- The threads in order of preference up to the first that has found a match, and that match. -/
def untilFound (r : Regex) : List Thread → List Thread × Option Slots
  | [] => ([], none)
  | t :: ts =>
    match r.code.getD t.instr .found with
    | .found => ([], some t.slots)
    | _ =>
      let (before, found) := untilFound r ts
      (t :: before, found)

def advance (r : Regex) (p : Position) (c : Char) (ts : List Thread) : Frontier :=
  ts.foldl (fun f t =>
    match r.code.getD t.instr .found with
    | .one chars next => if chars c then f.add r p next t.slots else f
    | _ => f) (.new r)

/-- Goes on with `f` at `p`, where `s` is the text from there on; `best` is the match found so far. Until one is
found a search also begins at every position. -/
def search (r : Regex) (f : Frontier) (best : Option Slots) (p : Position) : List Char → Option Slots
  | [] =>
    let f := if best.isSome then f else f.add r p r.start (Array.replicate (2 * r.groups) none)
    (untilFound r f.threads.reverse).2.or best
  | c :: s =>
    let f := if best.isSome then f else f.add r p r.start (Array.replicate (2 * r.groups) none)
    let (threads, found) := untilFound r f.threads.reverse
    let best := found.or best
    if threads.isEmpty && best.isSome then best
    else
      let next : Position := { before := some c, after := s.head?, index := p.index + 1 }
      search r (advance r next c threads) best next s

def find? (r : Regex) (before : Option Char) (index : Nat) (s : List Char) : Option Slots :=
  search r (.new r) none { before, after := s.head?, index } s

inductive Piece where
  | text (s : List Char)
  | group (name : List Char)

def isNameChar (c : Char) : Bool := c.isAlphanum || c == '_'

/-- The name of a group behind `$`: all in braces, or the longest run of name characters. -/
def readName? (s : List Char) : Option (Text.Step (List Char) s) :=
  match s with
  | '\x7b' :: rest =>
    match h : Text.breakOn? ['\x7d'] rest with
    | none => none
    | some (name, after) => some ⟨name, after, Nat.lt_succ_of_lt (Text.length_lt_of_breakOn? h (by simp))⟩
  | c :: rest =>
    if isNameChar c then
      some ⟨c :: rest.takeWhile isNameChar, rest.dropWhile isNameChar,
        Nat.lt_succ_of_le (Text.length_dropWhile_le _ _)⟩
    else none
  | [] => none

/-- A replacement: `$name` stands for a group, `$$` for a dollar, and a `$` before anything else for itself. -/
def template (s : List Char) : List Piece :=
  match s with
  | [] => []
  | '$' :: '$' :: s => .text ['$'] :: template s
  | '$' :: s =>
    match readName? s with
    | some name =>
      have := name.shorter
      .group name.value :: template name.rest
    | none => .text ['$'] :: template s
  | c :: s => .text [c] :: template s
termination_by s.length

def groupIndex? (r : Regex) (name : List Char) : Option Nat :=
  let digits := match name with
    | '+' :: rest => rest
    | name => name
  let n := digits.foldl (fun n c => n * 10 + (c.toNat - 48)) 0
  if !digits.isEmpty && digits.all Char.isDigit && n < Nat.pow 2 64 then some n
  else r.names.lookup (String.ofList name)

/-- The text of a group in a match over `whole`; nothing if it took no part. -/
def groupText (slots : Slots) (whole : List Char) (index : Nat) : List Char :=
  match slots.getD (2 * index) none, slots.getD (2 * index + 1) none with
  | some a, some b => (whole.drop a).take (b - a)
  | _, _ => []

def expand (r : Regex) (pieces : List Piece) (slots : Slots) (whole : List Char) : List Char :=
  pieces.flatMap fun
    | .text s => s
    | .group name => match groupIndex? r name with
      | some i => groupText slots whole i
      | none => []

/-- `s` with its matches replaced, where `s` stands at `index` in `whole`. A match that is empty and touches the
match before it, which ended at `last`, does not count. -/
def replaceFrom (r : Regex) (pieces : List Piece) (whole : List Char) (before : Option Char) (index : Nat)
    (last : Option Nat) (s : List Char) : List Char :=
  match find? r before index s with
  | none => s
  | some slots =>
    let start := (slots.getD 0 none).getD index
    let stop := (slots.getD 1 none).getD index
    let touching := start == stop && last == some stop
    let new := if touching then [] else s.take (start - index) ++ expand r pieces slots whole
    match s with
    | [] => new
    | c :: rest =>
      if stop ≤ index then
        new ++ c :: replaceFrom r pieces whole (some c) (index + 1) (some stop) rest
      else
        let taken := (c :: rest).take (stop - index)
        new ++ replaceFrom r pieces whole taken.getLast? stop (some stop) (rest.drop (stop - index - 1))
termination_by s.length
decreasing_by
  all_goals simp only [List.length_cons, List.length_drop]
  all_goals omega

end Emend.Regex

def Emend.Regex.replaceAll (r : Emend.Regex) (replacement s : String) : String :=
  String.ofList (Emend.Regex.replaceFrom r (Emend.Regex.template replacement.toList) s.toList none 0 none s.toList)
