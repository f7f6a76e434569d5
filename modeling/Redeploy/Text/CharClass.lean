import Redeploy.Text.Unicode.Letters
import Redeploy.Text.Unicode.Marks
import Redeploy.Text.Unicode.Case

set_option autoImplicit false

/-! # Classes of characters

Blank space, letters, digits, letter case and identifier characters, for all of Unicode. Every class
answers ASCII directly and looks the rest up in a table, so on ASCII text a class unfolds to a
comparison of code points and no table is touched. -/

namespace Redeploy

/-! ## Tables -/

/-- Whether a code point lies in one of the inclusive ranges. -/
def inRanges (n : Nat) (ranges : List (Nat × Nat)) : Bool :=
  ranges.any fun r => r.1 ≤ n && n ≤ r.2

/-- Whether a code point is met by one of the runs `(first, last, step)`. -/
def inRuns (n : Nat) (runs : List (Nat × Nat × Nat)) : Bool :=
  runs.any fun (first, last, step) => first ≤ n && n ≤ last && (n - first) % step == 0

/-! ## Blank space, letters and numbers -/

/-- White space: the property `White_Space`, which has line and paragraph separators and the
    no-break spaces in it, and no zero-width character. -/
def isBlankChar (c : Char) : Bool :=
  let n := c.toNat
  (9 ≤ n && n ≤ 13) || n == 32 || n == 0x85 || n == 0xA0 || n == 0x1680 ||
    (0x2000 ≤ n && n ≤ 0x200A) || n == 0x2028 || n == 0x2029 || n == 0x202F || n == 0x205F ||
    n == 0x3000

/-- The ASCII letters. -/
def isAsciiLetter (c : Char) : Bool :=
  (65 ≤ c.toNat && c.toNat ≤ 90) || (97 ≤ c.toNat && c.toNat ≤ 122)

/-- The ASCII digits. -/
def isAsciiDigit (c : Char) : Bool :=
  48 ≤ c.toNat && c.toNat ≤ 57

/-- Alphabetic characters: letters, letter numbers, and the marks and symbols that count as
    letters. -/
def isAlphabetic (c : Char) : Bool :=
  if c.toNat < 128 then isAsciiLetter c
  else inRanges c.toNat Unicode.letterRanges || inRanges c.toNat Unicode.alphabeticMarkRanges

/-- Numeric characters: digits, letter numbers and other numbers such as superscripts. -/
def isNumeric (c : Char) : Bool :=
  if c.toNat < 128 then isAsciiDigit c else inRanges c.toNat Unicode.numberRanges

/-- Alphabetic or numeric characters. -/
def isAlphanumeric (c : Char) : Bool :=
  isAlphabetic c || isNumeric c

/-! ## Letter case -/

/-- Uppercase characters. -/
def isUppercase (c : Char) : Bool :=
  if c.toNat < 128 then 65 ≤ c.toNat && c.toNat ≤ 90 else inRuns c.toNat Unicode.uppercaseRuns

/-- Lowercase characters. -/
def isLowercase (c : Char) : Bool :=
  if c.toNat < 128 then 97 ≤ c.toNat && c.toNat ≤ 122 else inRuns c.toNat Unicode.lowercaseRuns

/-- The lowercase form of a character. One character, `İ` (U+0130), has a form of two: an `i` and a
    combining dot. A character without a lowercase form stays as it is. -/
def lowercase (c : Char) : List Char :=
  let n := c.toNat
  if n < 128 then
    if 65 ≤ n && n ≤ 90 then [Char.ofNat (n + 32)] else [c]
  else if n == 0x130 then ['i', Char.ofNat 0x307]
  else
    match Unicode.lowerMapRuns.find? fun (first, last, step, _) =>
        first ≤ n && n ≤ last && (n - first) % step == 0 with
    | some (_, _, _, distance) => [Char.ofNat ((n : Int) + distance).toNat]
    | none => [c]

/-! ## Identifiers -/

/-- Letters that may not start an identifier, since their compatibility form starts with a blank or
    a mark. -/
def nonStartingLetters : List (Nat × Nat) :=
  [(0x37A, 0x37A), (0xE33, 0xE33), (0xEB3, 0xEB3), (0x2E2F, 0x2E2F), (0xFC5E, 0xFC63),
    (0xFDFA, 0xFDFB), (0xFE70, 0xFE70), (0xFE72, 0xFE72), (0xFE74, 0xFE74), (0xFE76, 0xFE76),
    (0xFE78, 0xFE78), (0xFE7A, 0xFE7A), (0xFE7C, 0xFE7C), (0xFE7E, 0xFE7E), (0xFF9E, 0xFF9F)]

/-- Characters that start an identifier although they are not letters. -/
def startingSymbols : List (Nat × Nat) :=
  [(0x1885, 0x1886), (0x2118, 0x2118), (0x212E, 0x212E)]

/-- Characters that may start an identifier: `XID_Start` and the underscore. -/
def startsIdentifier (c : Char) : Bool :=
  if c.toNat < 128 then isAsciiLetter c || c == '_'
  else (inRanges c.toNat Unicode.letterRanges && !inRanges c.toNat nonStartingLetters) ||
    inRanges c.toNat startingSymbols

/-- Characters that may continue an identifier: `XID_Continue`, which has the underscore in it. -/
def continuesIdentifier (c : Char) : Bool :=
  if c.toNat < 128 then isAsciiLetter c || isAsciiDigit c || c == '_'
  else startsIdentifier c || inRanges c.toNat Unicode.identifierMarkRanges

end Redeploy
