import Emend.LineDiff.Script

/-! # Tidying edit scripts

Insertions slide along equal lines as far as they go, up and then down, and join others of their kind. Then
a deletion beside an insertion becomes a replacement.
-/

namespace Emend.LineDiff

namespace Op

def oldRange : Op → Range
  | equal o _ n => ⟨o, o + n⟩
  | delete o n _ => ⟨o, o + n⟩
  | insert o _ _ => ⟨o, o⟩
  | replace o n _ _ => ⟨o, o + n⟩

def newRange : Op → Range
  | equal _ o n => ⟨o, o + n⟩
  | delete _ _ o => ⟨o, o⟩
  | insert _ o n => ⟨o, o + n⟩
  | replace _ _ o n => ⟨o, o + n⟩

def isEqual : Op → Bool
  | equal .. => true
  | _ => false

def isDelete : Op → Bool
  | delete .. => true
  | _ => false

def isInsert : Op → Bool
  | insert .. => true
  | _ => false

/-- The number of lines: of the old text for a deletion, of the new one for an insertion. -/
def size : Op → Nat
  | equal _ _ n | delete _ n _ | insert _ _ n => n
  | replace _ n _ m => max n m

def adjust (start size : Int) : Op → Op
  | equal o p n => equal (o + start).toNat (p + start).toNat (n + size).toNat
  | delete o n p => delete (o + start).toNat (n + size).toNat (p + start).toNat
  | insert o p n => insert (o + start).toNat (p + start).toNat (n + size).toNat
  | r => r

end Op

/-- A place in a script: what comes before, nearest first, the stretch there, what comes after. -/
structure Spot where
  before : List Op
  here : Op
  after : List Op

namespace Spot

variable (old new : Array String)

def shiftUp : (fuel : Nat) → Spot → Spot
  | 0, s => s
  | _ + 1, ⟨[], here, after⟩ => ⟨[], here, after⟩
  | fuel + 1, ⟨prev :: before, here, after⟩ =>
    if prev.isEqual then
      let n := commonEnd old new prev.oldRange here.newRange prev.size
      if n ≠ 0 then
        let after := match after with
          | next :: rest => if next.isEqual then next.adjust (-n) n :: rest
            else .equal (prev.oldRange.stop - n) (here.newRange.stop - n) n :: next :: rest
          | [] => [.equal (prev.oldRange.stop - n) (here.newRange.stop - n) n]
        let prev := prev.adjust 0 (-n)
        shiftUp fuel ⟨if prev.size = 0 then before else prev :: before, here.adjust (-n) 0, after⟩
      else if prev.size = 0 then shiftUp fuel ⟨before, here, after⟩
      else ⟨prev :: before, here, after⟩
    else if prev.isDelete = here.isDelete then shiftUp fuel ⟨before, prev.adjust 0 here.size, after⟩
    else shiftUp fuel ⟨before, here, prev :: after⟩

def shiftDown : (fuel : Nat) → Spot → Spot
  | 0, s => s
  | _ + 1, ⟨before, here, []⟩ => ⟨before, here, []⟩
  | fuel + 1, ⟨before, here, next :: after⟩ =>
    if next.isEqual then
      let n := commonStart old new next.oldRange here.newRange next.size
      if n ≠ 0 then
        let before := match before with
          | prev :: rest => if prev.isEqual then prev.adjust 0 n :: rest
            else .equal next.oldRange.start here.newRange.start n :: prev :: rest
          | [] => [.equal next.oldRange.start here.newRange.start n]
        let next := next.adjust n (-n)
        shiftDown fuel ⟨before, here.adjust n 0, if next.size = 0 then after else next :: after⟩
      else if next.size = 0 then shiftDown fuel ⟨before, here, after⟩
      else ⟨before, here, next :: after⟩
    else if next.isDelete = here.isDelete then shiftDown fuel ⟨before, here.adjust 0 next.size, after⟩
    else shiftDown fuel ⟨next :: before, here, after⟩

end Spot

variable (old new : Array String)

def shiftAll (which : Op → Bool) (room : Nat) : (fuel : Nat) → (before after : List Op) → List Op
  | _, before, [] => before.reverse
  | 0, before, after => before.reverse ++ after
  | fuel + 1, before, op :: after =>
    if which op then
      let s := Spot.shiftDown old new room (Spot.shiftUp old new room ⟨before, op, after⟩)
      shiftAll which room fuel (s.here :: s.before) s.after
    else shiftAll which room fuel (op :: before) after

/-- What has been put off while a script is gone through: equal lines, a deletion, an insertion. -/
structure Pending where
  equal : Option Op := none
  delete : Option Op := none
  insert : Option Op := none

def Pending.flushEqual (p : Pending) : List Op × Pending := (p.equal.toList, { p with equal := none })

def Pending.flushEdits (p : Pending) : List Op × Pending :=
  let rest := { p with delete := none, insert := none }
  match p.delete, p.insert with
  | some (.delete o n _), some (.insert _ q m) => ([.replace o n q m], rest)
  | some d, _ => ([d], rest)
  | none, some i => ([i], rest)
  | none, none => ([], rest)

def Pending.join (earlier : Option Op) (op : Op) : Option Op :=
  match earlier with
  | some e => some (e.adjust 0 op.size)
  | none => some op

/-- Neighbours of one kind joined, and a deletion beside an insertion made a replacement. -/
def joinEdits : Pending → List Op → List Op
  | p, [] => p.flushEqual.1 ++ p.flushEqual.2.flushEdits.1
  | p, op :: ops =>
    if op.isEqual then
      let (out, p) := p.flushEdits
      out ++ joinEdits { p with equal := Pending.join p.equal op } ops
    else
      let (out, p) := p.flushEqual
      let p := if op.isDelete then { p with delete := Pending.join p.delete op }
        else { p with insert := Pending.join p.insert op }
      out ++ joinEdits p ops

def tidyScript : List Op :=
  let first := script old new
  let room := 4 * (old.size + new.size + first.length + 1)
  let deletes := shiftAll old new Op.isDelete room room [] first
  joinEdits {} (shiftAll old new Op.isInsert room room [] deletes)

end Emend.LineDiff
