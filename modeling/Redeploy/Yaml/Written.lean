import Redeploy.Yaml.Implicit

set_option autoImplicit false

/-! # Writing texts

How a text is written as a scalar that reads back as the same text. One that has line feeds is
written as lines, and one that would be taken for something else between single quotes. Any other
is written without quotes if nothing in it gets in the way, or else between single quotes, and
between double quotes, with escapes, where that is no way to write it either.

A scalar is the last thing on its line, so what is written includes the line break behind it. -/

namespace Redeploy.Yaml.Written

/-! ## What gets in the way -/

/-- Characters that are written as they are: no controls but line feeds, no byte order mark, and
    nothing beyond the first 65536 code points. -/
def isPrintable (c : Char) : Bool :=
  let n := c.toNat
  n == 0x0A || (0x20 ≤ n && n ≤ 0x7E) || (0xA0 ≤ n && n ≤ 0xFFFD && n != 0xFEFF)

/-- Spaces, tabs and line breaks, before breaks are made uniform. -/
def isGapChar (c : Char) : Bool :=
  isBlank c || isBreak c || c == '\r' || c == nextLine

/-- Whether a character of one class stands right before one of another. -/
def hasAdjacent (p q : Char → Bool) : Text → Bool
  | c :: d :: t => (p c && q d) || hasAdjacent p q (d :: t)
  | _ => false

/-- Whether a text starts or ends with a character of a class. -/
def hasAtEnds (p : Char → Bool) (t : Text) : Bool :=
  t.head?.any p || t.getLast?.any p

/-- Whether a gap character or the end comes first. -/
def startsWithGap (t : Text) : Bool :=
  t.head?.all isGapChar

/-- Whether the first character of a text means something else at the start of a scalar. -/
def startsWithIndicator : Text → Bool
  | [] => false
  | c :: t =>
    "#,[]&*!|>'\"%@`".toList.contains c || c == '\x7b' || c == '\x7d' ||
      ("?:-".toList.contains c && startsWithGap t)

/-- Whether a text behind its first character has something that ends a scalar: a colon before a
    gap, or a number sign behind one. -/
def hasIndicator : Text → Bool
  | c :: d :: t => (d == ':' && startsWithGap t) || (isGapChar c && d == '#') || hasIndicator (d :: t)
  | _ => false

/-- Whether a text starts with the mark of a document. -/
def startsWithMarker (t : Text) : Bool :=
  "---".toList.isPrefixOf t || "...".toList.isPrefixOf t

/-- Whether a text has a character that only an escape can give, or a space at the end of a line,
    which would be lost. -/
def needsEscapes (t : Text) : Bool :=
  !t.all isPrintable || hasAdjacent (· == ' ') isBreak t

/-- Whether a text can be written without quotes. -/
def allowsPlain (t : Text) : Bool :=
  !(needsEscapes t || hasAtEnds (· == ' ') t || t.any isBreak || startsWithMarker t ||
    startsWithIndicator t || hasIndicator t)

/-- Whether a text can be written between single quotes: no line of it may start with a space. -/
def allowsSingle (t : Text) : Bool :=
  !(needsEscapes t || hasAdjacent isBreak (· == ' ') t)

/-- Whether a text can be written as lines. -/
def allowsLiteral (t : Text) : Bool :=
  !(needsEscapes t || t.getLast? == some ' ')

/-! ## The ways to write a text -/

/-- Uppercase hexadecimal digits, filled up with zeros. -/
def hexDigits (width n : Nat) : Text :=
  let digits := (Nat.toDigits 16 n).map Char.toUpper
  List.replicate (width - digits.length) '0' ++ digits

/-- The letter of an escape. -/
def escapeLetter? (c : Char) : Option Char :=
  [(Char.ofNat 0, '0'), (Char.ofNat 7, 'a'), (Char.ofNat 8, 'b'), ('\t', 't'), ('\n', 'n'),
    (Char.ofNat 11, 'v'), (Char.ofNat 12, 'f'), ('\r', 'r'), (Char.ofNat 27, 'e'), ('"', '"'),
    ('\\', '\\'), (nextLine, 'N'), (lineSeparator, 'L'), (paragraphSeparator, 'P')].lookup c

/-- A character between double quotes. -/
def escaped (c : Char) : Text :=
  match escapeLetter? c with
  | some letter => ['\\', letter]
  | none =>
    if isPrintable c then [c]
    else if c.toNat ≤ 0xFF then '\\' :: 'x' :: hexDigits 2 c.toNat
    else if c.toNat ≤ 0xFFFF then '\\' :: 'u' :: hexDigits 4 c.toNat
    else '\\' :: 'U' :: hexDigits 8 c.toNat

/-- A text between double quotes. -/
def double (t : Text) : Text :=
  '"' :: t.flatMap escaped ++ ['"']

/-- A text between single quotes, behind the opening one. Where a line has ended, `ended`, the next
    one is indented. -/
def singleFrom (indent : Nat) (ended : Bool) : Text → Text
  | [] => List.replicate (if ended then indent else 0) ' ' ++ ['\'']
  | c :: t =>
    if isBreak c then c :: singleFrom indent true t
    else List.replicate (if ended then indent else 0) ' ' ++
      (if c = '\'' then ['\'', '\''] else [c]) ++ singleFrom indent false t

/-- A text between single quotes. -/
def single (indent : Nat) (t : Text) : Text :=
  '\'' :: singleFrom indent false t

/-- The sign that tells what becomes of the line breaks at the end. -/
def chompingSign (t : Text) : Text :=
  match t.reverse with
  | [] => ['-']
  | c :: rest =>
    if !isBreak c then ['-'] else if rest.head?.all isBreak then ['+'] else []

/-- The header of a text that is written as lines. If the text does not start with something that
    shows how deep its lines are indented, the header says it. -/
def literalHeader (t : Text) : Text :=
  '|' :: (if t.head?.any fun c => c == ' ' || isBreak c then ['2'] else []) ++ chompingSign t

/-- The lines of a text, indented where they are not empty; `atStart` at the start of a line. -/
def literalLines (indent : Nat) (atStart : Bool) : Text → Text
  | [] => if atStart then [] else ['\n']
  | c :: t =>
    if isBreak c then c :: literalLines indent true t
    else List.replicate (if atStart then indent else 0) ' ' ++ c :: literalLines indent false t

/-- A text as lines. -/
def literal (indent : Nat) (t : Text) : Text :=
  literalHeader t ++ '\n' :: literalLines indent true t

/-- A text as a scalar, with the line break behind it. Further lines of the scalar are indented. -/
def scalar (indent : Nat) (t : Text) : Text :=
  if t.contains '\n' then (if allowsLiteral t then literal indent t else double t ++ ['\n'])
  else if !Implicit.isTaken t && allowsPlain t then t ++ ['\n']
  else if allowsSingle t then single indent t ++ ['\n']
  else double t ++ ['\n']

end Redeploy.Yaml.Written
