import Emend.Regex.Expr

/-! # Programs

An expression as a list of instructions, each of which knows where to go on. Where it can go on in two ways the
first is preferred.
-/

namespace Emend.Regex

inductive Instr where
  | one (chars : Chars) (next : Nat)
  | look (l : Look) (next : Nat)
  | save (slot next : Nat)
  | choose (first second : Nat)
  | found

instance : Inhabited Instr := ⟨.found⟩

abbrev Assembly := StateM (Array Instr)

namespace Assembly

def emit (i : Instr) : Assembly Nat := fun code => (code.size, code.push i)

def set (at_ : Nat) (i : Instr) : Assembly Unit := fun code => ((), code.setIfInBounds at_ i)

def option (greedy : Bool) (body next : Nat) : Instr := if greedy then .choose body next else .choose next body

def loop (greedy : Bool) (next : Nat) (body : Nat → Assembly Nat) : Assembly Nat := do
  let again ← emit .found
  let start ← body again
  set again (option greedy start next)
  return start

def times : Nat → (body : Nat → Assembly Nat) → (next : Nat) → Assembly Nat
  | 0, _, next => return next
  | n + 1, body, next => do body (← times n body next)

/-- The body at most `n` times, each time only after the one before; all of them end at `next`. -/
def atMost (greedy : Bool) (next : Nat) (body : Nat → Assembly Nat) : Nat → Assembly Nat
  | 0 => return next
  | n + 1 => do
    let start ← body (← atMost greedy next body n)
    emit (option greedy start next)

end Assembly

open Assembly

mutual

/-- Instructions that match the expression and go on at `next`; the result is where they begin. A loop over a
body that can be empty decides whether to begin in an instruction of its own. -/
def Expr.assemble : Expr → (next : Nat) → Assembly Nat
  | .empty, next => return next
  | .one chars, next => emit (.one chars next)
  | .look l, next => emit (.look l next)
  | .capture index body, next => do
    let start ← body.assemble (← emit (.save (2 * index + 1) next))
    emit (.save (2 * index) start)
  | .either branches, next => Expr.assembleEither branches next
  | .sequence parts, next => Expr.assembleAll parts next
  | .repeated 0 none greedy body, next =>
    if body.canBeEmpty then do
      let start ← loop greedy next body.assemble
      emit (option greedy start next)
    else do
      let again ← emit .found
      let start ← body.assemble again
      set again (option greedy start next)
      return again
  | .repeated (min + 1) none greedy body, next => do
    times min body.assemble (← loop greedy next body.assemble)
  | .repeated min (some max) greedy body, next => do
    times min body.assemble (← atMost greedy next body.assemble (max - min))

def Expr.assembleEither : List Expr → (next : Nat) → Assembly Nat
  | [], next => return next
  | [e], next => e.assemble next
  | e :: es, next => do
    let first ← e.assemble next
    let second ← Expr.assembleEither es next
    emit (.choose first second)

def Expr.assembleAll : List Expr → (next : Nat) → Assembly Nat
  | [], next => return next
  | e :: es, next => do e.assemble (← Expr.assembleAll es next)

end

mutual

def Expr.size : Expr → Nat
  | .empty => 0
  | .one _ | .look _ => 1
  | .capture _ body => body.size + 2
  | .either branches => Expr.sizeAll branches + branches.length
  | .sequence parts => Expr.sizeAll parts
  | .repeated min max _ body => (body.size + 1) * (Nat.max 1 ((max.getD min) + 1))

def Expr.sizeAll : List Expr → Nat
  | [] => 0
  | e :: es => e.size + Expr.sizeAll es

end

def maxSize : Nat := 200000

end Emend.Regex

namespace Emend

structure Regex where
  code : Array Regex.Instr
  start : Nat
  groups : Nat
  names : List (String × Nat)

namespace Regex

def parse (s : String) : Except Fault Regex := do
  let parsed ← parsePattern s.toList
  let (e, _) ← parsed.pattern.expr {}
  if maxSize < e.size then throw .tooLarge
  let (start, code) := ((Expr.capture 0 e).assemble 0).run #[.found]
  return { code, start, groups := parsed.groups, names := parsed.names }

end Regex
end Emend
