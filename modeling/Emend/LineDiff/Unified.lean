import Emend.LineDiff.Compact

/-! # Unified diffs

Changed lines with three lines around them, in hunks, each under a line that says where it is.
-/

namespace Emend.LineDiff

/-- The lines of a text with their ends; a line ends at a line feed, a carriage return, or both together. -/
def splitLines (s : List Char) : List (List Char) := go [] s
where
  /-- `line` holds the characters of the line begun, the last one first. -/
  go (line : List Char) : List Char → List (List Char)
    | [] => if line.isEmpty then [] else [line.reverse]
    | '\r' :: '\n' :: s => (('\n' :: '\r' :: line).reverse) :: go [] s
    | c :: s => if c = '\r' ∨ c = '\n' then (c :: line).reverse :: go [] s else go (c :: line) s

def linesOf (s : String) : Array String := ((splitLines s.toList).map String.ofList).toArray

def contextSize : Nat := 3

def trimStart : List Op → List Op
  | .equal o p n :: ops => .equal (o + (n - contextSize)) (p + (n - contextSize)) (min n contextSize) :: ops
  | ops => ops

def trimEnd : List Op → List Op
  | [] => []
  | [.equal o p n] => [.equal o p (min n contextSize)]
  | op :: ops => op :: trimEnd ops

/-- Cuts a script inside every long equal stretch; `group` is the hunk begun, the last stretch first. -/
def hunksFrom (group : List Op) : List Op → List (List Op)
  | [] =>
    match group with
    | [] | [.equal ..] => []
    | group => [group.reverse]
  | .equal o p n :: ops =>
    if 2 * contextSize < n then
      (.equal o p contextSize :: group).reverse ::
        hunksFrom [.equal (o + (n - contextSize)) (p + (n - contextSize)) contextSize] ops
    else hunksFrom (.equal o p n :: group) ops
  | op :: ops => hunksFrom (op :: group) ops

def hunks (ops : List Op) : List (List Op) := hunksFrom [] (trimEnd (trimStart ops))

/-- First line and number of lines; the number is left out if it is one, and an empty range starts before. -/
def showRange (r : Range) : String :=
  if r.length = 1 then toString (r.start + 1)
  else if r.length = 0 then s!"{r.start},0"
  else s!"{r.start + 1},{r.length}"

def showLines (mark : String) (lines : Array String) (r : Range) : String :=
  String.join (((lines.toList.drop r.start).take r.length).map fun line =>
    mark ++ line ++
      match line.toList.getLast? with
      | some '\n' | some '\r' => ""
      | _ => "\n\\ No newline at end of file\n")

def showOp (old new : Array String) : Op → String
  | op@(.equal ..) => showLines " " old op.oldRange
  | op => showLines "-" old op.oldRange ++ showLines "+" new op.newRange

def showHunk (old new : Array String) (ops : List Op) : String :=
  match ops.head?, ops.getLast? with
  | some first, some last =>
    let a : Range := ⟨first.oldRange.start, last.oldRange.stop⟩
    let b : Range := ⟨first.newRange.start, last.newRange.stop⟩
    "@@ -" ++ showRange a ++ " +" ++ showRange b ++ " @@\n" ++ String.join (ops.map (showOp old new))
  | _, _ => ""

/-- The unified diff between two texts of the file at `path`; empty if there are no hunks. -/
def unified (path old new : String) : String :=
  let a := linesOf old
  let b := linesOf new
  match hunks (tidyScript a b) with
  | [] => ""
  | hs => s!"--- a/{path}\n+++ b/{path}\n" ++ String.join (hs.map (showHunk a b))

end Emend.LineDiff
