/-! # Edit scripts between two lists of lines

The script is found by meeting in the middle: a search from both ends for the furthest points that so many
edits reach, and the two parts beside the meeting point likewise.
-/

namespace Emend.LineDiff

/-- A stretch of the script: `oldLength` lines from `oldStart` stand against `newLength` from `newStart`. -/
inductive Op where
  | equal (oldStart newStart length : Nat)
  | delete (oldStart oldLength newStart : Nat)
  | insert (oldStart newStart newLength : Nat)
  | replace (oldStart oldLength newStart newLength : Nat)
deriving DecidableEq, Repr

structure Range where
  start : Nat
  stop : Nat
deriving DecidableEq, Repr

namespace Range

def length (r : Range) : Nat := r.stop - r.start

def isEmpty (r : Range) : Bool := r.stop ≤ r.start

end Range

variable (old new : Array String)

/-- How many lines both ranges have in common at their start; no more than `limit`. -/
def commonStart (a b : Range) : (limit : Nat) → Nat
  | 0 => 0
  | limit + 1 =>
    if a.start < a.stop ∧ b.start < b.stop ∧ old[a.start]? = new[b.start]? then
      commonStart ⟨a.start + 1, a.stop⟩ ⟨b.start + 1, b.stop⟩ limit + 1
    else 0

/-- How many lines both ranges have in common at their end; no more than `limit`. -/
def commonEnd (a b : Range) : (limit : Nat) → Nat
  | 0 => 0
  | limit + 1 =>
    if a.start < a.stop ∧ b.start < b.stop ∧ old[a.stop - 1]? = new[b.stop - 1]? then
      commonEnd ⟨a.start, a.stop - 1⟩ ⟨b.start, b.stop - 1⟩ limit + 1
    else 0

/-- For every diagonal the furthest line of the old text reached on it, counted from the end the search
starts at. Diagonals are shifted to be indices. -/
structure Frontier where
  shift : Nat
  reached : Array Nat

namespace Frontier

def empty (size : Nat) : Frontier := ⟨size, (Array.replicate (2 * size + 1) 0)⟩

def get (f : Frontier) (k : Int) : Nat := f.reached.getD (k + f.shift).toNat 0

def set (f : Frontier) (k : Int) (x : Nat) : Frontier :=
  { f with reached := f.reached.setIfInBounds (k + f.shift).toNat x }

def step (f : Frontier) (d k : Int) : Nat :=
  if k = -d ∨ (k ≠ d ∧ f.get (k - 1) < f.get (k + 1)) then f.get (k + 1) else f.get (k - 1) + 1

end Frontier

/-- A search in both directions: it goes on with both frontiers, or has found where to split. -/
inductive Search where
  | going (forward backward : Frontier)
  | split (oldAt newAt : Nat)

def diagonals (d : Nat) : List Int := (List.range (d + 1)).map fun (i : Nat) => (d : Int) - 2 * (i : Int)

def forwardStep (a b : Range) (d : Nat) (forward backward : Frontier) (k : Int) : Search :=
  let n := a.length
  let delta : Int := n - b.length
  let x := forward.step d k
  let y := (x - k).toNat
  let far :=
    if x < n ∧ y < b.length then
      x + commonStart old new ⟨a.start + x, a.stop⟩ ⟨b.start + y, b.stop⟩ n
    else x
  let forward := forward.set k far
  if delta % 2 ≠ 0 ∧ (k - delta).natAbs + 1 ≤ d ∧ n ≤ far + backward.get (delta - k) then
    .split (x + a.start) (y + b.start)
  else .going forward backward

def backwardStep (a b : Range) (d : Nat) (forward backward : Frontier) (k : Int) : Search :=
  let n := a.length
  let m := b.length
  let delta : Int := n - m
  let x := backward.step d k
  let y := (x - k).toNat
  let advance :=
    if x < n ∧ y < m then
      commonEnd old new ⟨a.start, a.start + n - x⟩ ⟨b.start, b.start + m - y⟩ n
    else 0
  let backward := backward.set k (x + advance)
  if delta % 2 = 0 ∧ (k - delta).natAbs ≤ d ∧ n ≤ x + advance + forward.get (delta - k) then
    .split (n - (x + advance) + a.start) (m - (y + advance) + b.start)
  else .going forward backward

def searchRounds (a b : Range) : (rounds d : Nat) → Frontier → Frontier → Option (Nat × Nat)
  | 0, _, _, _ => none
  | rounds + 1, d, forward, backward =>
    let try_ (step : Range → Range → Nat → Frontier → Frontier → Int → Search) (s : Search) : Search :=
      (diagonals d).foldl (fun s k =>
        match s with
        | .going f g => step a b d f g k
        | found => found) s
    match try_ (backwardStep old new) (try_ (forwardStep old new) (.going forward backward)) with
    | .split x y => some (x, y)
    | .going f g => searchRounds a b rounds (d + 1) f g

def middle? (a b : Range) : Option (Nat × Nat) :=
  let rounds := (a.length + b.length + 1) / 2 + 1
  searchRounds old new a b rounds 0 (.empty (rounds + 1)) (.empty (rounds + 1))

/-- The script between two ranges, by at most `depth` splits one inside another. -/
def scriptBetween : (depth : Nat) → Range → Range → List Op
  | depth, a, b =>
    let front := commonStart old new a b a.length
    let a₁ : Range := ⟨a.start + front, a.stop⟩
    let b₁ : Range := ⟨b.start + front, b.stop⟩
    let back := commonEnd old new a₁ b₁ a₁.length
    let a₂ : Range := ⟨a₁.start, a₁.stop - back⟩
    let b₂ : Range := ⟨b₁.start, b₁.stop - back⟩
    let replaced := [.delete a₂.start a₂.length b₂.start, .insert a₂.start b₂.start b₂.length]
    let inner :=
      if a₂.isEmpty && b₂.isEmpty then []
      else if b₂.isEmpty then [.delete a₂.start a₂.length b₂.start]
      else if a₂.isEmpty then [.insert a₂.start b₂.start b₂.length]
      else match depth with
        | 0 => replaced
        | depth + 1 =>
          match middle? old new a₂ b₂ with
          | some (x, y) =>
            scriptBetween depth ⟨a₂.start, x⟩ ⟨b₂.start, y⟩ ++ scriptBetween depth ⟨x, a₂.stop⟩ ⟨y, b₂.stop⟩
          | none => replaced
    (if front = 0 then [] else [.equal a.start b.start front]) ++ inner ++
      (if back = 0 then [] else [.equal a₂.stop b₂.stop back])

def script : List Op :=
  scriptBetween old new (old.size + new.size + 1) ⟨0, old.size⟩ ⟨0, new.size⟩

end Emend.LineDiff
