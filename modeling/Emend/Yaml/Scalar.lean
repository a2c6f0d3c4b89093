import Emend.Json.Reader
import Emend.Yaml.Character

/-! # Scalars

The text of a scalar in each of its spellings. Between two words, a line break reads as a blank and further
ones as themselves; a block scalar keeps its lines, or folds them.
-/

namespace Emend.Yaml

/-- Where a scalar may be something other than text: a plain one may, a literal one if its tag says so. -/
inductive Style where
  | plain
  | literal
  | other
deriving DecidableEq

/-- Blanks and line breaks that may turn out to stand between two words, the last ones first. Behind a
line break, `column` says how far the next line is indented. In a `glued` gap the first break is escaped. -/
structure Gap where
  blanks : List Char := []
  breaks : List Char := []
  column : Option Nat := none
  glued : Bool := false

namespace Gap

def isEmpty (g : Gap) : Bool := g.blanks.isEmpty && g.column.isNone

def blank (g : Gap) (c : Char) : Gap :=
  match g.column with
  | none => { g with blanks := c :: g.blanks }
  | some n => { g with column := some (n + 1) }

def newline (g : Gap) (c : Char) : Gap := { g with blanks := [], breaks := breakText c :: g.breaks, column := some 0 }

def text (g : Gap) : List Char :=
  match g.column with
  | none => g.blanks.reverse
  | some _ =>
    if g.glued then g.breaks.reverse
    else
      match g.breaks.reverse with
      | ['\n'] => [' ']
      | '\n' :: more => more
      | breaks => breaks

def beforeMark (g : Gap) (s : List Char) : Bool := g.column == some 0 && atDocumentMark s

end Gap

structure PlainText where
  text : String
  /-- Whether line breaks follow, which have been passed over. -/
  broken : Bool
  rest : List Char

/-- A plain scalar whose further lines are indented by `indent` at least, outside of brackets. -/
def plain (inFlow : Bool) (indent : Nat) (s : List Char) : Option PlainText := go {} [] s
where
  finish (gap : Gap) (read rest : List Char) : Option PlainText :=
    some ⟨String.ofList read.reverse, gap.column.isSome, rest⟩
  go (gap : Gap) (read : List Char) : List Char → Option PlainText
    | [] => finish gap read []
    | c :: s =>
      if isPairedReturn c s then go gap read s
      else if isBreak c then go (gap.newline c) read s
      else if isSpace c then
        if c == '\t' && gap.column.any (· < indent) then none else go (gap.blank c) read s
      else if !gap.isEmpty && (c == '#' || gap.beforeMark (c :: s) || (!inFlow && gap.column.any (· < indent))) then
        finish gap read (c :: s)
      else if inFlow && c == ':' && s.head?.any (oneOf ",?[]\x7b\x7d") then none
      else if (c == ':' && atBlank s) || (inFlow && oneOf ",[]\x7b\x7d" c) then finish gap read (c :: s)
      else go {} (c :: (gap.text.reverse ++ read)) s

def singleQuoted (s : List Char) : Option (String × List Char) := go {} [] false s
where
  /-- `quote` says that the character before was a quote, which another one would escape. -/
  go (gap : Gap) (read : List Char) (quote : Bool) : List Char → Option (String × List Char)
    | [] => if quote then some (String.ofList read.reverse, []) else none
    | c :: s =>
      if quote then
        if c == '\x27' then go {} (c :: read) false s else some (String.ofList read.reverse, c :: s)
      else if isPairedReturn c s then go gap read false s
      else if isBreak c then go (gap.newline c) read false s
      else if isSpace c then go (gap.blank c) read false s
      else if gap.beforeMark (c :: s) then none
      else if c == '\x27' then go {} (gap.text.reverse ++ read) true s
      else go {} (c :: (gap.text.reverse ++ read)) false s

def escapes : List (Char × Char) := [
  ('0', '\x00'), ('a', '\x07'), ('b', '\x08'), ('t', '\t'), ('\t', '\t'), ('n', '\n'), ('v', '\x0b'), ('f', '\x0c'),
  ('r', '\r'), ('e', '\x1b'), (' ', ' '), ('"', '"'), ('/', '/'), ('\\', '\\'), ('N', '\u0085'), ('_', '\u00a0'),
  ('L', '\u2028'), ('P', '\u2029')]

def codeLengths : List (Char × Nat) := [('x', 2), ('u', 4), ('U', 8)]

inductive Expecting where
  | text
  | escape
  | digits (left code : Nat)

def ofCode? (n : Nat) : Option Char := if h : n.isValidChar then some ⟨n.toUInt32, by
    have hn : n < 4294967296 := by
      rcases h with h | h <;> omega
    simpa [UInt32.isValidChar, Nat.toUInt32, UInt32.toNat_ofNat, Nat.mod_eq_of_lt hn] using h⟩ else none

def doubleQuoted (s : List Char) : Option (String × List Char) := go {} [] .text s
where
  go (gap : Gap) (read : List Char) : Expecting → List Char → Option (String × List Char)
    | _, [] => none
    | .escape, c :: s =>
      if isPairedReturn c s then go gap read .escape s
      else if isBreak c then go { column := some 0, glued := true } read .text s
      else
        match escapes.lookup c, codeLengths.lookup c with
        | some e, _ => go {} (e :: read) .text s
        | none, some n => go {} read (.digits n 0) s
        | none, none => none
    | .digits left code, c :: s =>
      match Json.hexValue? c with
      | none => none
      | some v =>
        let code := code * 16 + v
        if 1 < left then go {} read (.digits (left - 1) code) s
        else
          match ofCode? code with
          | some e => go {} (e :: read) .text s
          | none => none
    | .text, c :: s =>
      if isPairedReturn c s then go gap read .text s
      else if isBreak c then go (gap.newline c) read .text s
      else if isSpace c then go (gap.blank c) read .text s
      else if gap.beforeMark (c :: s) then none
      else
        let read := gap.text.reverse ++ read
        if c == '"' then some (String.ofList read.reverse, s)
        else if c == '\\' then go {} read .escape s
        else go {} (c :: read) .text s

inductive Chomping where
  | strip
  | clip
  | keep
deriving DecidableEq

def chomping? (s : List Char) : Option (Chomping × List Char) :=
  match s with
  | '+' :: s => some (.keep, s)
  | '-' :: s => some (.strip, s)
  | _ => none

def increment? (s : List Char) : Option (Option Nat × List Char) :=
  match s with
  | c :: r => if Json.isDigit c then if c == '0' then none else some (some (c.toNat - 48), r) else some (none, s)
  | [] => some (none, s)

/-- The indicators behind `|` or `>`, in either order, and the text from the next line on. -/
def blockHeader (s : List Char) : Option (Chomping × Option Nat × List Char) := do
  let (chomping, increment, s) ← match chomping? s with
    | some (chomping, s) => do
      let (increment, s) ← increment? s
      pure (chomping, increment, s)
    | none => do
      let (increment, s) ← increment? s
      match increment, chomping? s with
      | some n, some (chomping, s) => pure (chomping, some n, s)
      | _, _ => pure (.clip, increment, s)
  let s := s.dropWhile isSpace
  let s := if s.head? == some '#' then s.dropWhile (!isBreak ·) else s
  match s with
  | [] => some (chomping, increment, [])
  | c :: r =>
    if !isBreak c then none
    else some (chomping, increment, if isPairedReturn c r then r.tail else r)

/-- The indentation of the first line that is not blank, or of a longer blank line before it. -/
def detectIndent (column greatest : Nat) : List Char → Option Nat
  | [] => some (max column greatest)
  | c :: s =>
    if c == ' ' then detectIndent (column + 1) greatest s
    else if c == '\t' then none
    else if isBreak c then detectIndent 0 (max column greatest) s
    else some (max column greatest)

structure Block where
  text : List Char := []
  /-- The break at the end of the last line, and those of the blank lines behind it. -/
  leading : List Char := []
  trailing : List Char := []
  /-- Whether the last line begins with a blank. -/
  indented : Bool := false

/-- Starts a line with `c`. A folded scalar joins it to the line before, unless either begins with a blank. -/
def Block.startLine (b : Block) (folded : Bool) (c : Char) : Block :=
  let joint :=
    if folded && b.leading == ['\n'] && !b.indented && !isSpace c then
      if b.trailing.isEmpty then [' '] else b.trailing
    else b.trailing ++ b.leading
  { text := c :: (joint ++ b.text), indented := isSpace c }

def Block.finish (b : Block) (chomping : Chomping) : String :=
  let ending := match chomping with
    | .strip => []
    | .clip => b.leading
    | .keep => b.trailing ++ b.leading
  String.ofList (ending ++ b.text).reverse

def blockLines (folded : Bool) (indent : Nat) (s : List Char) : Option (Block × List Char) := go {} (some 0) s
where
  /-- The column is known as long as nothing but its indentation has been read of a line. -/
  go (b : Block) : Option Nat → List Char → Option (Block × List Char)
    | _, [] => some (b, [])
    | none, c :: s =>
      if isPairedReturn c s then go b none s
      else if isBreak c then go { b with leading := [breakText c] } (some 0) s
      else go { b with text := c :: b.text } none s
    | some column, c :: s =>
      if column < indent && c == ' ' then go b (some (column + 1)) s
      else if column < indent && c == '\t' then none
      else if isPairedReturn c s then go b (some column) s
      else if isBreak c then go { b with trailing := breakText c :: b.trailing } (some 0) s
      else if column = indent then go (b.startLine folded c) none s
      else some (b, c :: s)

def blockScalar (folded : Bool) (parent : Option Nat) (s : List Char) : Option (String × List Char) := do
  let (chomping, increment, s) ← blockHeader s
  let indent ← match increment with
    | some n => pure (parent.getD 0 + n)
    | none => do
      let found ← detectIndent 0 0 s
      pure (max (max found ((parent.map (· + 1)).getD 0)) 1)
  let (b, rest) ← blockLines folded indent s
  return (b.finish chomping, rest)

end Emend.Yaml
