import Redeploy.Text.Numeral

set_option autoImplicit false

/-! # Characters in their places

In YAML the column of a character means something: it says which collection an entry belongs to. A
text is therefore read as a list of glyphs, characters that know their line and column, and every
reader is a function on the glyphs that are left. The place behind the last character is never
asked for: whatever is still open there is closed or refused, wherever the text happens to end.

Line breaks are made uniform before, so that a break is always one glyph. -/

namespace Redeploy.Yaml

/-! ## Characters -/

/-- Characters that may stand in a YAML text: no controls but tabs and line breaks. -/
def isAllowed (c : Char) : Bool :=
  let n := c.toNat
  n == 0x09 || n == 0x0A || n == 0x0D || (0x20 ≤ n && n ≤ 0x7E) || n == 0x85 ||
    (0xA0 ≤ n && n ≤ 0xFFFD) || 0x10000 ≤ n

/-- The mark that some programs put in front of a text. -/
def byteOrderMark : Char := Char.ofNat 0xFEFF

/-- Next line, a control that ends lines. -/
def nextLine : Char := Char.ofNat 0x85

/-- The line separator. -/
def lineSeparator : Char := Char.ofNat 0x2028

/-- The paragraph separator. -/
def paragraphSeparator : Char := Char.ofNat 0x2029

/-- Spaces and tabs. -/
def isBlank (c : Char) : Bool :=
  c == ' ' || c == '\t'

/-- Line breaks, once they are uniform: the separators stay what they are. -/
def isBreak (c : Char) : Bool :=
  c == '\n' || c == lineSeparator || c == paragraphSeparator

/-- Characters of a name: ASCII letters and digits, `-` and `_`. -/
def isNameChar (c : Char) : Bool :=
  isAsciiLetter c || isAsciiDigit c || c == '_' || c == '-'

/-- The text with a line feed for every carriage return, alone or with a line feed behind it, and
    for every next-line control. -/
def uniformBreaks : Text → Text
  | [] => []
  | '\r' :: '\n' :: t => '\n' :: uniformBreaks t
  | c :: t => (if c = '\r' ∨ c = nextLine then '\n' else c) :: uniformBreaks t

/-! ## Glyphs -/

/-- A character in its place. -/
structure Glyph where
  /-- The character. -/
  char : Char
  /-- The line, counted from 0. -/
  line : Nat
  /-- How many characters stand before it on its line. -/
  column : Nat
  deriving DecidableEq, Repr

/-- The glyphs of a text that starts at a place. -/
def glyphsFrom (line column : Nat) : Text → List Glyph
  | [] => []
  | c :: t =>
    ⟨c, line, column⟩ :: if isBreak c then glyphsFrom (line + 1) 0 t else glyphsFrom line (column + 1) t

/-- The text that glyphs spell. -/
def spelled (gs : List Glyph) : Text :=
  gs.map (·.char)

theorem spelled_glyphsFrom (line column : Nat) (t : Text) :
    spelled (glyphsFrom line column t) = t := by
  induction t generalizing line column with
  | nil => rfl
  | cons c t ih =>
    rw [glyphsFrom, spelled, List.map_cons]
    split <;> simpa [spelled] using ih _ _

/-- The glyphs of a whole text; `none` if it holds a character that may not stand there. A byte
    order mark in front is dropped, but it takes up its column. -/
def glyphs? (t : Text) : Option (List Glyph) :=
  if t.all isAllowed then
    match glyphsFrom 0 0 (uniformBreaks t) with
    | g :: rest => some (if g.char = byteOrderMark then rest else g :: rest)
    | [] => some []
  else none

/-! ## Looking ahead -/

/-- Whether a class of characters holds of the first glyph. -/
def startsWith (p : Char → Bool) : List Glyph → Bool
  | g :: _ => p g.char
  | [] => false

/-- Whether blank space, a line break or the end follows. -/
def atGap : List Glyph → Bool
  | g :: _ => isBlank g.char || isBreak g.char
  | [] => true

/-- Whether a mark of three equal characters follows that starts or ends a document: it stands at
    the start of a line, with a gap behind it. -/
def atMarker (mark : Char) : List Glyph → Bool
  | a :: b :: c :: rest =>
    a.column == 0 && a.char == mark && b.char == mark && c.char == mark && atGap rest
  | _ => false

/-- Whether a document starts or ends here. -/
def atDocumentMarker (gs : List Glyph) : Bool :=
  atMarker '-' gs || atMarker '.' gs

/-- The rest of the text from the first glyph on that is no blank. -/
def skipBlanks (gs : List Glyph) : List Glyph :=
  gs.dropWhile fun g => isBlank g.char

/-- The rest of the text from the next line break on. -/
def skipLine (gs : List Glyph) : List Glyph :=
  gs.dropWhile fun g => !isBreak g.char

/-- The text of the glyphs in front that are of a class, and the glyphs behind them. -/
def takeText (p : Char → Bool) (gs : List Glyph) : Text × List Glyph :=
  (spelled (gs.takeWhile fun g => p g.char), gs.dropWhile fun g => p g.char)

/-- What follows blanks, a comment and a line break; `none` if anything else is left on the line. -/
def endOfLine? (gs : List Glyph) : Option (List Glyph) :=
  let rest := skipBlanks gs
  let rest := if startsWith (fun c => c == '#') rest then skipLine rest else rest
  match rest with
  | [] => some []
  | g :: rest => if isBreak g.char then some rest else none

end Redeploy.Yaml
