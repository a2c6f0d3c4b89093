import Emend.Regex.Parse
import Emend.Regex.Property

/-! # Expressions

What a pattern means once its flags are applied: classes of characters, conditions on a position, and ways to
combine them. Of several ways to match, the one that comes first counts.
-/

namespace Emend.Regex

/-- A condition on the position between two characters, either of which may be missing. -/
inductive Look where
  | textStart
  | textEnd
  | lineStart
  | lineEnd
  | crlfStart
  | crlfEnd
  | word (test : Bool → Bool → Bool) (ascii : Bool)

def Look.holds (l : Look) (before after : Option Char) : Bool :=
  match l with
  | textStart => before.isNone
  | textEnd => after.isNone
  | lineStart => before.all (· == '\n')
  | lineEnd => after.all (· == '\n')
  | crlfStart => before.all (· == '\n') || (before == some '\r' && after != some '\n')
  | crlfEnd => after.all (· == '\r') || (after == some '\n' && before != some '\r')
  | word test ascii =>
    let isWord := if ascii then PerlClass.word.asciiChars else PerlClass.word.chars
    test (before.any isWord) (after.any isWord)

inductive Expr where
  | empty
  | one (chars : Chars)
  | look (l : Look)
  | capture (index : Nat) (body : Expr)
  | either (branches : List Expr)
  | sequence (parts : List Expr)
  | repeated (min : Nat) (max : Option Nat) (greedy : Bool) (body : Expr)

instance : Inhabited Expr := ⟨.empty⟩

mutual

def Expr.canBeEmpty : Expr → Bool
  | empty | look _ => true
  | one _ => false
  | capture _ body => body.canBeEmpty
  | either branches => Expr.someCanBeEmpty branches
  | sequence parts => Expr.allCanBeEmpty parts
  | repeated min _ _ body => min == 0 || body.canBeEmpty

def Expr.someCanBeEmpty : List Expr → Bool
  | [] => false
  | e :: es => e.canBeEmpty || Expr.someCanBeEmpty es

def Expr.allCanBeEmpty : List Expr → Bool
  | [] => true
  | e :: es => e.canBeEmpty && Expr.allCanBeEmpty es

end

mutual

def Expr.isAlwaysEmpty : Expr → Bool
  | empty | look _ => true
  | one _ => false
  | capture _ body => body.isAlwaysEmpty
  | either branches => Expr.allAlwaysEmpty branches
  | sequence parts => Expr.allAlwaysEmpty parts
  | repeated _ max _ body => max == some 0 || body.isAlwaysEmpty

def Expr.allAlwaysEmpty : List Expr → Bool
  | [] => true
  | e :: es => e.isAlwaysEmpty && Expr.allAlwaysEmpty es

end

/-- A repetition. What never takes a character is repeated once at most. -/
def Expr.repeat (min : Nat) (max : Option Nat) (greedy : Bool) (body : Expr) : Expr :=
  let bounds := if body.isAlwaysEmpty then (Nat.min min 1, some ((max.map (Nat.min 1)).getD 1)) else (min, max)
  if bounds = (0, some 0) then .empty
  else if bounds = (1, some 1) then body
  else .repeated bounds.1 bounds.2 greedy body

structure Flags where
  caseInsensitive : Bool := false
  multiLine : Bool := false
  dotAll : Bool := false
  swapGreed : Bool := false
  unicode : Bool := true
  crlf : Bool := false

namespace Flags

def set (f : Flags) : Flag × Bool → Flags
  | (.caseInsensitive, on) => { f with caseInsensitive := on }
  | (.multiLine, on) => { f with multiLine := on }
  | (.dotAll, on) => { f with dotAll := on }
  | (.swapGreed, on) => { f with swapGreed := on }
  | (.unicode, on) => { f with unicode := on }
  | (.crlf, on) => { f with crlf := on }
  | (.extended, _) => f

def apply (f : Flags) (changes : FlagChanges) : Flags := changes.foldl set f

def fold (f : Flags) (p : Chars) : Chars :=
  if f.caseInsensitive then (if f.unicode then p.fold else p.foldAscii) else p

/-- Without Unicode no class may reach beyond ASCII, so none may be negated. -/
def negate (f : Flags) (p : Chars) (negated : Bool) : Except Fault Chars :=
  if negated && !f.unicode then .error .needsUnicode else .ok (p.negate negated)

def look (f : Flags) : Anchor → Look
  | .textStart => .textStart
  | .textEnd => .textEnd
  | .lineStart => if f.multiLine then (if f.crlf then .crlfStart else .lineStart) else .textStart
  | .lineEnd => if f.multiLine then (if f.crlf then .crlfEnd else .lineEnd) else .textEnd
  | .wordBoundary => .word (· != ·) !f.unicode
  | .notWordBoundary => .word (· == ·) !f.unicode
  | .wordStart => .word (fun b a => !b && a) !f.unicode
  | .wordEnd => .word (fun b a => b && !a) !f.unicode
  | .wordStartHalf => .word (fun b _ => !b) !f.unicode
  | .wordEndHalf => .word (fun _ a => !a) !f.unicode

def perl (f : Flags) (kind : PerlClass) (negated : Bool) : Except Fault Chars :=
  f.negate (if f.unicode then kind.chars else kind.asciiChars) negated

def property (f : Flags) (query : PropertyQuery) (negated : Bool) : Except Fault Chars :=
  if !f.unicode then .error .needsUnicode
  else match query.chars? with
    | none => .error .unknownProperty
    | some p => .ok ((f.fold p).negate negated)

def dot (f : Flags) : Except Fault Chars :=
  if !f.unicode then .error .needsUnicode
  else if f.dotAll then .ok fun _ => true
  else if f.crlf then .ok fun c => c != '\n' && c != '\r'
  else .ok (· != '\n')

def char (f : Flags) (c : Char) (byte : Bool) : Except Fault Chars :=
  if !f.unicode && 128 ≤ c.toNat && (byte || f.caseInsensitive) then .error .needsUnicode
  else .ok (f.fold (· == c))

end Flags

def SetOp.chars (op : SetOp) (p q : Chars) : Chars := fun c =>
  match op with
  | intersection => p c && q c
  | difference => p c && !q c
  | symmetricDifference => p c != q c

mutual

/-- The members of an item. Case variants are added to classes and to the sides of operators as a whole. -/
def SetItem.chars (f : Flags) : SetItem → Except Fault Chars
  | .char c => if !f.unicode && 128 ≤ c.toNat then .error .needsUnicode else .ok (· == c)
  | .range a b =>
    if !f.unicode && 128 ≤ b.toNat then .error .needsUnicode else .ok fun c => a ≤ c && c ≤ b
  | .perl kind negated => f.perl kind negated
  | .ascii kind negated => f.negate (f.fold kind.chars) negated
  | .property query negated => f.property query negated
  | .bracketed negated set => do f.negate (f.fold (← set.chars f)) negated

def SetItem.charsAll (f : Flags) : List SetItem → Except Fault Chars
  | [] => .ok fun _ => false
  | i :: is => do
    let p ← i.chars f
    let q ← SetItem.charsAll f is
    return fun c => p c || q c

def SetExpr.chars (f : Flags) : SetExpr → Except Fault Chars
  | .union items => SetItem.charsAll f items
  | .op kind left right => do
    let p ← left.chars f
    let q ← right.chars f
    return kind.chars (f.fold p) (f.fold q)

end

mutual

def Pattern.expr (f : Flags) : Pattern → Except Fault (Expr × Flags)
  | .empty => .ok (.empty, f)
  | .setFlags changes => .ok (.empty, f.apply changes)
  | .char c byte => do return (.one (← f.char c byte), f)
  | .dot => do return (.one (← f.dot), f)
  | .anchor a => .ok (.look (f.look a), f)
  | .perl kind negated => do return (.one (← f.perl kind negated), f)
  | .property query negated => do return (.one (← f.property query negated), f)
  | .bracketed negated set => do return (.one (← f.negate (f.fold (← set.chars f)) negated), f)
  | .repeated min max greedy body => do
    let (e, f) ← body.expr f
    return (.repeat min max (greedy != f.swapGreed) e, f)
  | .group (.capture index) body => do
    let (e, _) ← body.expr f
    return (.capture index e, f)
  | .group (.flags changes) body => do
    let (e, _) ← body.expr (f.apply changes)
    return (e, f)
  | .alternation branches => do
    let (es, f) ← Pattern.exprAll f branches
    return (.either es, f)
  | .concat parts => do
    let (es, f) ← Pattern.exprAll f parts
    return (.sequence es, f)

def Pattern.exprAll (f : Flags) : List Pattern → Except Fault (List Expr × Flags)
  | [] => .ok ([], f)
  | p :: ps => do
    let (e, f) ← p.expr f
    let (es, f) ← Pattern.exprAll f ps
    return (e :: es, f)

end

end Emend.Regex
