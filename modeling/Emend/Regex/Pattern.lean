/-! # Patterns

What a regular expression says, as written: flags are not yet applied and names not yet looked up.
-/

namespace Emend.Regex

inductive Flag where
  | caseInsensitive
  | multiLine
  | dotAll
  | swapGreed
  | unicode
  | crlf
  | extended
deriving DecidableEq

abbrev FlagChanges := List (Flag × Bool)

inductive Anchor where
  | lineStart
  | lineEnd
  | textStart
  | textEnd
  | wordBoundary
  | notWordBoundary
  | wordStart
  | wordEnd
  | wordStartHalf
  | wordEndHalf
deriving DecidableEq

inductive PerlClass where
  | digit
  | space
  | word
deriving DecidableEq

inductive AsciiClass where
  | alnum | alpha | ascii | blank | cntrl | digit | graph
  | lower | print | punct | space | upper | word | xdigit
deriving DecidableEq

/-- `\p` with a name, or with the name of a property and a value. -/
inductive PropertyQuery where
  | name (s : String)
  | value (property value : String)
deriving DecidableEq

inductive SetOp where
  | intersection
  | difference
  | symmetricDifference
deriving DecidableEq

mutual

inductive SetItem where
  | char (c : Char)
  | range (a b : Char)
  | perl (kind : PerlClass) (negated : Bool)
  | ascii (kind : AsciiClass) (negated : Bool)
  | property (query : PropertyQuery) (negated : Bool)
  | bracketed (negated : Bool) (set : SetExpr)

inductive SetExpr where
  | union (items : List SetItem)
  | op (kind : SetOp) (left right : SetExpr)

end

instance : Inhabited SetExpr := ⟨.union []⟩

inductive GroupKind where
  | capture (index : Nat)
  | flags (changes : FlagChanges)
deriving DecidableEq

/-- `byte` marks a character written as two hexadecimal digits. No `max` means no bound. -/
inductive Pattern where
  | empty
  | setFlags (changes : FlagChanges)
  | char (c : Char) (byte : Bool)
  | dot
  | anchor (a : Anchor)
  | perl (kind : PerlClass) (negated : Bool)
  | property (query : PropertyQuery) (negated : Bool)
  | bracketed (negated : Bool) (set : SetExpr)
  | repeated (min : Nat) (max : Option Nat) (greedy : Bool) (body : Pattern)
  | group (kind : GroupKind) (body : Pattern)
  | alternation (branches : List Pattern)
  | concat (parts : List Pattern)

instance : Inhabited Pattern := ⟨.empty⟩

mutual

def SetItem.nesting : SetItem → Nat
  | .bracketed _ set => set.nesting + 1
  | _ => 0

def SetItem.nestingAll : List SetItem → Nat
  | [] => 0
  | i :: is => max i.nesting (SetItem.nestingAll is)

/-- A union of other than one item is a level of its own. -/
def SetExpr.nesting : SetExpr → Nat
  | .union items => SetItem.nestingAll items + if 1 < items.length then 1 else 0
  | .op _ left right => max left.nesting right.nesting + 1

end

mutual

def Pattern.nesting : Pattern → Nat
  | .bracketed _ set => set.nesting + 1
  | .repeated _ _ _ body => body.nesting + 1
  | .group _ body => body.nesting + 1
  | .alternation branches => Pattern.nestingAll branches + 1
  | .concat parts => Pattern.nestingAll parts + 1
  | _ => 0

def Pattern.nestingAll : List Pattern → Nat
  | [] => 0
  | p :: ps => max p.nesting (Pattern.nestingAll ps)

end

inductive Fault where
  | groupNotClosed
  | groupNotOpened
  | nothingToRepeat
  | badCount
  | badEscape
  | badClass
  | badFlags
  | badGroupName
  | lookAround
  | backReference
  | unknownProperty
  | needsUnicode
  | nestedTooDeep
  | tooLarge
deriving DecidableEq

def Fault.message : Fault → String
  | groupNotClosed => "unclosed group"
  | groupNotOpened => "unopened group"
  | nothingToRepeat => "repetition operator missing expression"
  | badCount => "invalid repetition count"
  | badEscape => "invalid escape sequence"
  | badClass => "invalid character class"
  | badFlags => "invalid flags"
  | badGroupName => "invalid capture group name"
  | lookAround => "look-around is not supported"
  | backReference => "backreferences are not supported"
  | unknownProperty => "unknown Unicode property"
  | needsUnicode => "not possible without Unicode"
  | nestedTooDeep => "nested too deep"
  | tooLarge => "compiled expression is too large"

end Emend.Regex
