import Emend.Json.Reader

/-! # Dates and times

A date, a time, or both with or without an offset. They are kept as text in one spelling.
-/

namespace Emend.Toml

def fixed? (width : Nat) (s : List Char) : Option (Nat × List Char) :=
  let digits := s.take width
  if digits.length = width && digits.all Json.isDigit then some (Json.ofDigits digits, s.drop width) else none

def padded (width n : Nat) : String :=
  let digits := toString n
  String.ofList (List.replicate (width - digits.length) '0') ++ digits

def daysIn (year month : Nat) : Nat :=
  if month = 2 then if year % 4 = 0 && (year % 100 ≠ 0 || year % 400 = 0) then 29 else 28
  else if [4, 6, 9, 11].contains month then 30
  else 31

def date? (s : List Char) : Option (String × List Char) := do
  let (year, s) ← fixed? 4 s
  match s with
  | '-' :: s => do
    let (month, s) ← fixed? 2 s
    match s with
    | '-' :: s => do
      let (day, s) ← fixed? 2 s
      if month < 1 || 12 < month || day < 1 || daysIn year month < day then none
      return (s!"{padded 4 year}-{padded 2 month}-{padded 2 day}", s)
    | _ => none
  | _ => none

/-- The digits behind the point of a second: nine at most, without zeros at the end. -/
def fraction (s : List Char) : Option (String × List Char) :=
  match s with
  | '.' :: s =>
    let digits := s.takeWhile Json.isDigit
    if digits.isEmpty then none
    else
      let kept := ((digits.take 9).reverse.dropWhile (· == '0')).reverse
      some (if kept.isEmpty then "" else String.ofList ('.' :: kept), s.dropWhile Json.isDigit)
  | s => some ("", s)

def time? (s : List Char) : Option (String × List Char) := do
  let (hour, s) ← fixed? 2 s
  match s with
  | ':' :: s => do
    let (minute, s) ← fixed? 2 s
    match s with
    | ':' :: s => do
      let (second, s) ← fixed? 2 s
      let (frac, s) ← fraction s
      if 23 < hour || 59 < minute || 60 < second then none
      return (s!"{padded 2 hour}:{padded 2 minute}:{padded 2 second}{frac}", s)
    | _ => none
  | _ => none

def offset? (s : List Char) : Option (String × List Char) := do
  match s with
  | 'Z' :: s | 'z' :: s => return ("Z", s)
  | sign :: s =>
    if sign ≠ '+' && sign ≠ '-' then none
    let (hour, s) ← fixed? 2 s
    match s with
    | ':' :: s => do
      let (minute, s) ← fixed? 2 s
      if 23 < hour || 59 < minute then none
      return (String.ofList [sign] ++ s!"{padded 2 hour}:{padded 2 minute}", s)
    | _ => none
  | [] => none

def moment? (s : List Char) : Option (String × List Char) :=
  match date? s with
  | none => time? s
  | some (date, rest) =>
    match rest with
    | c :: r =>
      if c = 'T' || c = 't' || (c = ' ' && r.head?.any Json.isDigit) then do
        let (time, rest) ← time? r
        match offset? rest with
        | some (offset, rest) => return (s!"{date}T{time}{offset}", rest)
        | none => return (s!"{date}T{time}", rest)
      else some (date, rest)
    | [] => some (date, [])

end Emend.Toml
