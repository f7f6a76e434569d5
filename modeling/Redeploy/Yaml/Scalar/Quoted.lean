import Redeploy.Yaml.Scalar.Gap

set_option autoImplicit false

/-! # Quoted scalars

Between single quotes only the quote itself is special, and it is written twice. Between double
quotes a backslash starts an escape, and at the end of a line it takes the line break away. Both
kinds run over lines, with their gaps folded, but not past the start or end of a document. -/

namespace Redeploy.Yaml.Quoted

/-- The character that an escape of one letter stands for. -/
def simpleEscape? (c : Char) : Option Char :=
  match c with
  | '0' => some (Char.ofNat 0)
  | 'a' => some (Char.ofNat 7)
  | 'b' => some (Char.ofNat 8)
  | 't' => some '\t'
  | '\t' => some '\t'
  | 'n' => some '\n'
  | 'v' => some (Char.ofNat 11)
  | 'f' => some (Char.ofNat 12)
  | 'r' => some '\r'
  | 'e' => some (Char.ofNat 27)
  | ' ' => some ' '
  | '"' => some '"'
  | '/' => some '/'
  | '\\' => some '\\'
  | 'N' => some nextLine
  | '_' => some (Char.ofNat 0xA0)
  | 'L' => some lineSeparator
  | 'P' => some paragraphSeparator
  | _ => none

/-- How many digits an escape that gives a code point has. -/
def escapeDigits? (c : Char) : Option Nat :=
  match c with
  | 'x' => some 2
  | 'u' => some 4
  | 'U' => some 8
  | _ => none

/-- The character of a code point, if it is the code point of a character. -/
def charOf? (n : Nat) : Option Char :=
  if n.isValidChar then some (Char.ofNat n) else none

/-- The character of an escape, and what follows it; the backslash has been read. -/
def readEscape : List Glyph → Option (Char × List Glyph)
  | [] => none
  | g :: rest =>
    match escapeDigits? g.char with
    | some n => do
      let digits := spelled (rest.take n)
      if digits.length < n then none
      let c ← (readNat? 16 digits).bind charOf?
      return (c, rest.drop n)
    | none => (simpleEscape? g.char).map fun c => (c, rest)

/-- The rest of a scalar between single quotes, and what follows it. `read` is what has been read,
    last character first, and `gap` the gap since. -/
def readSingle : (steps : Nat) → Text → Gap → List Glyph → Option (Text × List Glyph)
  | 0, _, _, _ => none
  | _ + 1, _, _, [] => none
  | steps + 1, read, gap, g :: rest =>
    if isBlank g.char then readSingle steps read (gap.addBlank g.char) rest
    else if isBreak g.char then readSingle steps read (gap.addBreak g.char) rest
    else if atDocumentMarker (g :: rest) then none
    else
      let read := gap.folded.reverse ++ read
      if g.char = '\'' then
        if startsWith (fun c => c == '\'') rest then
          readSingle steps ('\'' :: read) .none (rest.drop 1)
        else some (read.reverse, rest)
      else readSingle steps (g.char :: read) .none rest

/-- The rest of a scalar between double quotes, and what follows it. -/
def readDouble : (steps : Nat) → Text → Gap → List Glyph → Option (Text × List Glyph)
  | 0, _, _, _ => none
  | _ + 1, _, _, [] => none
  | steps + 1, read, gap, g :: rest =>
    if isBlank g.char then readDouble steps read (gap.addBlank g.char) rest
    else if isBreak g.char then readDouble steps read (gap.addBreak g.char) rest
    else if atDocumentMarker (g :: rest) then none
    else
      let read := gap.folded.reverse ++ read
      if g.char = '"' then some (read.reverse, rest)
      else if g.char = '\\' then
        if startsWith isBreak rest then readDouble steps read (.breaks [] []) (rest.drop 1)
        else
          match readEscape rest with
          | some (c, rest') => readDouble steps (c :: read) .none rest'
          | none => none
      else readDouble steps (g.char :: read) .none rest

/-- The scalar whose opening single quote has just been read, and what follows it. Every step uses
    up a glyph. -/
def single? (gs : List Glyph) : Option (Text × List Glyph) :=
  readSingle (gs.length + 1) [] .none gs

/-- The scalar whose opening double quote has just been read, and what follows it. -/
def double? (gs : List Glyph) : Option (Text × List Glyph) :=
  readDouble (gs.length + 1) [] .none gs

end Redeploy.Yaml.Quoted
