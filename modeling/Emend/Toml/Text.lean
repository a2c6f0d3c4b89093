import Emend.Json.Reader

/-! # Strings and keys

Strings in their four spellings, keys bare or quoted, and what may stand between them.
-/

namespace Emend.Toml

def isSpace (c : Char) : Bool := c == ' ' || c == '\t'

def skipSpace (s : List Char) : List Char := s.dropWhile isSpace

def isControl (c : Char) : Bool := (c.toNat < 32 && c != '\t') || c.toNat == 127

/-- The text behind a line break: a line feed, perhaps with a carriage return in front of it. -/
def newline? : List Char → Option (List Char)
  | '\n' :: s | '\r' :: '\n' :: s => some s
  | _ => none

def skipComment? (s : List Char) : Option (List Char) :=
  match s with
  | '#' :: r =>
    let rest := r.dropWhile (!isControl ·)
    if rest.isEmpty || (newline? rest).isSome then some rest else none
  | s => some s

def skipLines? (s : List Char) : Option (List Char) := go s.length s
where
  go : Nat → List Char → Option (List Char)
    | 0, s => some s
    | n + 1, s => do
      let s ← skipComment? (skipSpace s)
      match newline? s with
      | some s => go n s
      | none => some s

def escapes : List (Char × Char) :=
  [('b', '\x08'), ('t', '\t'), ('n', '\n'), ('f', '\x0c'), ('r', '\r'), ('"', '"'), ('\\', '\\')]

def ofCode? (n : Nat) : Option Char := if n.isValidChar then some (Char.ofNat n) else none

def escape? (s : List Char) : Option (Char × List Char) :=
  match s with
  | 'u' :: a :: b :: c :: d :: s => do return (← ofCode? (← Json.hex4? a b c d), s)
  | 'U' :: a :: b :: c :: d :: e :: f :: g :: h :: s => do
    return (← ofCode? ((← Json.hex4? a b c d) * 0x10000 + (← Json.hex4? e f g h)), s)
  | c :: s => (escapes.lookup c).map (·, s)
  | [] => none

def basic (s : List Char) : Option (List Char × List Char) := go s.length s
where
  go : Nat → List Char → Option (List Char × List Char)
    | 0, _ | _, [] => none
    | n + 1, c :: s =>
      if c == '"' then some ([], s)
      else if c == '\\' then do
        let (e, s) ← escape? s
        let (more, rest) ← go n s
        return (e :: more, rest)
      else if isControl c then none
      else do
        let (more, rest) ← go n s
        return (c :: more, rest)

def literal (s : List Char) : Option (List Char × List Char) :=
  match s.dropWhile fun c => c != '\x27' && !isControl c with
  | '\x27' :: rest => some (s.takeWhile fun c => c != '\x27' && !isControl c, rest)
  | _ => none

/-- A line break right behind the opening quotes does not count. -/
def skipFirstNewline (s : List Char) : List Char := (newline? s).getD s

def closing? (quote : Char) (s : List Char) : Option (List Char × List Char) :=
  let quotes := s.takeWhile (· == quote)
  if quotes.length < 3 then none
  else
    let inside := min (quotes.length - 3) 2
    some (List.replicate inside quote, s.drop (inside + 3))

/-- The text behind a backslash at the end of a line: the blank lines that follow do not count. -/
def skipFold? (s : List Char) : Option (List Char) :=
  match newline? (skipSpace s) with
  | some s => some (go s.length s)
  | none => none
where
  go : Nat → List Char → List Char
    | 0, s => s
    | n + 1, s =>
      let s := skipSpace s
      match newline? s with
      | some s => go n s
      | none => s

def multiline (quote : Char) (escaped : Bool) (s : List Char) : Option (List Char × List Char) :=
  go s.length (skipFirstNewline s)
where
  go : Nat → List Char → Option (List Char × List Char)
    | 0, s => closing? quote s
    | _, [] => none
    | n + 1, c :: s =>
      match closing? quote (c :: s), newline? (c :: s) with
      | some r, _ => some r
      | none, some s => do
        let (more, rest) ← go n s
        return ('\n' :: more, rest)
      | none, none =>
        if escaped && c == '\\' then
          match skipFold? s with
          | some s => go n s
          | none => do
            let (e, s) ← escape? s
            let (more, rest) ← go n s
            return (e :: more, rest)
        else if isControl c then none
        else do
          let (more, rest) ← go n s
          return (c :: more, rest)

def string? (s : List Char) : Option (List Char × List Char) :=
  match s with
  | '"' :: '"' :: '"' :: s => multiline '"' true s
  | '\x27' :: '\x27' :: '\x27' :: s => multiline '\x27' false s
  | '"' :: s => basic s
  | '\x27' :: s => literal s
  | _ => none

def isBareChar (c : Char) : Bool := c.isAlphanum || c == '-' || c == '_'

def simpleKey? (s : List Char) : Option (String × List Char) :=
  match s with
  | '"' :: s => (basic s).map fun (key, rest) => (String.ofList key, rest)
  | '\x27' :: s => (literal s).map fun (key, rest) => (String.ofList key, rest)
  | s =>
    let key := s.takeWhile isBareChar
    if key.isEmpty then none else some (String.ofList key, s.dropWhile isBareChar)

/-- The parts of a key between dots: those before the last one, and the last one. -/
def key? (s : List Char) : Option (List String × String × List Char) := go s.length s
where
  go : Nat → List Char → Option (List String × String × List Char)
    | 0, _ => none
    | n + 1, s => do
      let (key, rest) ← simpleKey? (skipSpace s)
      match skipSpace rest with
      | '.' :: rest => do
        let (path, last, rest) ← go n rest
        return (key :: path, last, rest)
      | rest => return ([], key, rest)

end Emend.Toml
