import Emend.Text.Category

/-! # Text between quotes, for messages

Quotes, backslashes and characters that would not show are escaped.
-/

namespace Emend.Text

private def hexCode (c : Char) : List Char := "\\u\x7b".toList ++ Nat.toDigits 16 c.toNat ++ ['\x7d']

def literalChar (c : Char) : List Char :=
  if c = '"' then ['\\', '"']
  else if c = '\\' then ['\\', '\\']
  else if c = '\n' then ['\\', 'n']
  else if c = '\r' then ['\\', 'r']
  else if c = '\t' then ['\\', 't']
  else if c = '\x00' then ['\\', '0']
  else if ' ' ≤ c ∧ c ≤ '~' then [c]
  else if extendsGrapheme c || !isPrintable c then hexCode c
  else [c]

def literal (s : String) : String := String.ofList ('"' :: s.toList.flatMap literalChar ++ ['"'])

end Emend.Text
