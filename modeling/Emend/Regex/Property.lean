import Emend.Regex.Pattern
import Emend.Text.Blank
import Emend.Text.Folding
import Emend.Text.Script
import Emend.Text.Word

/-! # Classes of characters

The classes that have names: those of `\d`, `\s` and `\w`, the ASCII classes, and properties looked up by loose
names, in which case, blanks, `-`, `_` and a leading `is` do not count.
-/

namespace Emend.Regex

abbrev Chars := Char → Bool

namespace Chars

def ofRanges (ranges : List (Nat × Nat)) : Chars := fun c => ranges.any fun (a, b) => a ≤ c.toNat && c.toNat ≤ b

def fold (p : Chars) : Chars := fun c => (Text.caseVariants c).any p

def foldAscii (p : Chars) : Chars := fun c => p c || p c.toLower || p c.toUpper

def negate (p : Chars) (negated : Bool) : Chars := fun c => p c != negated

end Chars

def PerlClass.chars : PerlClass → Chars
  | digit => fun c => Text.category c == .nd
  | space => Text.isWhiteSpace
  | word => Text.isWordChar

def PerlClass.asciiChars : PerlClass → Chars
  | digit => Char.isDigit
  | space => fun c => c == ' ' || (9 ≤ c.toNat && c.toNat ≤ 13)
  | word => fun c => c.isAlphanum || c == '_'

def AsciiClass.chars : AsciiClass → Chars
  | alnum => Char.isAlphanum
  | alpha => Char.isAlpha
  | ascii => fun c => c.toNat < 128
  | blank => fun c => c == ' ' || c == '\t'
  | cntrl => fun c => c.toNat < 32 || c.toNat == 127
  | digit => Char.isDigit
  | graph => fun c => '!' ≤ c && c ≤ '~'
  | lower => Char.isLower
  | print => fun c => ' ' ≤ c && c ≤ '~'
  | punct => fun c => '!' ≤ c && c ≤ '~' && !c.isAlphanum
  | space => fun c => c == ' ' || (9 ≤ c.toNat && c.toNat ≤ 13)
  | upper => Char.isUpper
  | word => fun c => c.isAlphanum || c == '_'
  | xdigit => fun c => c.isDigit || ('a' ≤ c && c ≤ 'f') || ('A' ≤ c && c ≤ 'F')

def looseName (s : String) : String :=
  let cs := s.toList
  let isMarked := (cs.take 2).map Char.toLower == ['i', 's']
  let kept := ((if isMarked then cs.drop 2 else cs).filter fun c =>
    c.toNat < 128 && c != ' ' && c != '_' && c != '-').map Char.toLower
  if isMarked && kept == ['c'] then "isc" else String.ofList kept

def generalCategories : List (List String × List Text.Category) := [
  (["c", "other"], [.cc, .cf, .cn, .co]), (["cc", "control", "cntrl"], [.cc]), (["cf", "format"], [.cf]),
  (["cn", "unassigned"], [.cn]), (["co", "privateuse"], [.co]),
  (["l", "letter"], [.lu, .ll, .lt, .lm, .lo]), (["lc", "casedletter"], [.lu, .ll, .lt]),
  (["ll", "lowercaseletter"], [.ll]), (["lm", "modifierletter"], [.lm]), (["lo", "otherletter"], [.lo]),
  (["lt", "titlecaseletter"], [.lt]), (["lu", "uppercaseletter"], [.lu]),
  (["m", "mark", "combiningmark"], [.mn, .mc, .me]), (["mc", "spacingmark"], [.mc]),
  (["me", "enclosingmark"], [.me]), (["mn", "nonspacingmark"], [.mn]),
  (["n", "number"], [.nd, .nl, .no]), (["nd", "decimalnumber", "digit"], [.nd]), (["nl", "letternumber"], [.nl]),
  (["no", "othernumber"], [.no]),
  (["p", "punctuation", "punct"], [.pc, .pd, .ps, .pe, .pi, .pf, .po]), (["pc", "connectorpunctuation"], [.pc]),
  (["pd", "dashpunctuation"], [.pd]), (["pe", "closepunctuation"], [.pe]), (["pf", "finalpunctuation"], [.pf]),
  (["pi", "initialpunctuation"], [.pi]), (["po", "otherpunctuation"], [.po]), (["ps", "openpunctuation"], [.ps]),
  (["s", "symbol"], [.sm, .sc, .sk, .so]), (["sc", "currencysymbol"], [.sc]), (["sk", "modifiersymbol"], [.sk]),
  (["sm", "mathsymbol"], [.sm]), (["so", "othersymbol"], [.so]),
  (["z", "separator"], [.zs, .zl, .zp]), (["zl", "lineseparator"], [.zl]), (["zp", "paragraphseparator"], [.zp]),
  (["zs", "spaceseparator"], [.zs])]

def category? (name : String) : Option Chars :=
  if name = "any" then some fun _ => true
  else if name = "assigned" then some fun c => Text.category c != .cn
  else if name = "ascii" then some fun c => c.toNat < 128
  else (generalCategories.find? fun (names, _) => names.contains name).map fun (_, categories) =>
    fun c => categories.contains (Text.category c)

def script? (name : String) : Option Chars :=
  (Text.Script.names.find? fun (code, long) => looseName code == name || looseName long == name).map
    fun (code, _) => Chars.ofRanges (Text.Script.rangesOf code)

def otherLowercase : List (Nat × Nat) := [
  (0xAA, 0xAA), (0xBA, 0xBA), (0x2B0, 0x2B8), (0x2C0, 0x2C1), (0x2E0, 0x2E4), (0x345, 0x345), (0x37A, 0x37A),
  (0x10FC, 0x10FC), (0x1D2C, 0x1D6A), (0x1D78, 0x1D78), (0x1D9B, 0x1DBF), (0x2071, 0x2071), (0x207F, 0x207F),
  (0x2090, 0x209C), (0x2170, 0x217F), (0x24D0, 0x24E9), (0x2C7C, 0x2C7D), (0xA69C, 0xA69D), (0xA770, 0xA770),
  (0xA7F2, 0xA7F4), (0xA7F8, 0xA7F9), (0xAB5C, 0xAB5F), (0xAB69, 0xAB69), (0x10780, 0x10780),
  (0x10783, 0x10785), (0x10787, 0x107B0), (0x107B2, 0x107BA), (0x1E030, 0x1E06D)]

def otherUppercase : List (Nat × Nat) := [
  (0x2160, 0x216F), (0x24B6, 0x24CF), (0x1F130, 0x1F149), (0x1F150, 0x1F169), (0x1F170, 0x1F189)]

def binaryProperties : List (List String × Chars) := [
  (["alpha", "alphabetic"], Text.isAlphabetic),
  (["lower", "lowercase"], fun c => Text.category c == .ll || Chars.ofRanges otherLowercase c),
  (["upper", "uppercase"], fun c => Text.category c == .lu || Chars.ofRanges otherUppercase c),
  (["whitespace", "wspace", "space"], Text.isWhiteSpace),
  (["asciihexdigit", "ahex"], AsciiClass.chars .xdigit),
  (["hexdigit", "hex"], fun c => AsciiClass.chars .xdigit c ||
    Chars.ofRanges [(0xFF10, 0xFF19), (0xFF21, 0xFF26), (0xFF41, 0xFF46)] c)]

def binaryProperty? (name : String) : Option Chars :=
  (binaryProperties.find? fun (names, _) => names.contains name).map (·.2)

def PropertyQuery.chars? : PropertyQuery → Option Chars
  | name s => (binaryProperty? (looseName s)).orElse fun _ =>
      (category? (looseName s)).orElse fun _ => script? (looseName s)
  | value property s =>
    let property := looseName property
    if property = "gc" ∨ property = "generalcategory" then category? (looseName s)
    else if property = "sc" ∨ property = "script" then script? (looseName s)
    else none

end Emend.Regex
