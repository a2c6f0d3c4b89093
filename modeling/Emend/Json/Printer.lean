import Emend.Json.Basic

/-! # Printing JSON

Compact text, and text indented by two blanks a level. Strings escape the quote, the backslash and the
control characters, nothing else.
-/

namespace Emend.Json

def hexDigit (n : Nat) : Char := Char.ofNat (if n < 10 then 48 + n else 87 + n)

def escapeChar (c : Char) : List Char :=
  if c = '"' then ['\\', '"']
  else if c = '\\' then ['\\', '\\']
  else if c = '\n' then ['\\', 'n']
  else if c = '\r' then ['\\', 'r']
  else if c = '\t' then ['\\', 't']
  else if c = '\x08' then ['\\', 'b']
  else if c = '\x0c' then ['\\', 'f']
  else if c.toNat < 32 then ['\\', 'u', '0', '0', hexDigit (c.toNat / 16), hexDigit (c.toNat % 16)]
  else [c]

def quoted (s : String) : String := String.ofList ('"' :: s.toList.flatMap escapeChar ++ ['"'])

mutual

def print : Json → String
  | null => "null"
  | bool b => if b then "true" else "false"
  | int n => toString n
  | real d => d.text
  | string s => quoted s
  | array items => "[" ++ printAll items ++ "]"
  | object fields => "\x7b" ++ printFields fields ++ "\x7d"

def printAll : List Json → String
  | [] => ""
  | [j] => j.print
  | j :: js => j.print ++ "," ++ printAll js

def printFields : List (String × Json) → String
  | [] => ""
  | [(k, j)] => quoted k ++ ":" ++ j.print
  | (k, j) :: fs => quoted k ++ ":" ++ j.print ++ "," ++ printFields fs

end

def newline (level : Nat) : String := String.ofList ('\n' :: List.replicate (2 * level) ' ')

mutual

def printPretty (level : Nat) : Json → String
  | array [] => "[]"
  | array (j :: js) =>
    "[" ++ newline (level + 1) ++ printPretty (level + 1) j ++ printPrettyMore (level + 1) js ++ newline level ++ "]"
  | object [] => "\x7b\x7d"
  | object ((k, j) :: fs) =>
    "\x7b" ++ newline (level + 1) ++ quoted k ++ ": " ++ printPretty (level + 1) j ++
      printPrettyFields (level + 1) fs ++ newline level ++ "\x7d"
  | null => "null"
  | bool b => if b then "true" else "false"
  | int n => toString n
  | real d => d.text
  | string s => quoted s

def printPrettyMore (level : Nat) : List Json → String
  | [] => ""
  | j :: js => "," ++ newline level ++ printPretty level j ++ printPrettyMore level js

def printPrettyFields (level : Nat) : List (String × Json) → String
  | [] => ""
  | (k, j) :: fs =>
    "," ++ newline level ++ quoted k ++ ": " ++ printPretty level j ++ printPrettyFields level fs

end

end Emend.Json
