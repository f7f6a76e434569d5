import Redeploy.Yaml.Glyph

set_option autoImplicit false

/-! # Block scalars

A scalar made of whole lines below its indicator. In a *literal* one every line break is kept, in a
*folded* one a single break between two lines that do not start with blank space reads as a space.
The header behind the indicator may say how deep the lines are indented and what becomes of the
breaks at the end. Without it, the deepest of the leading lines decides, and one break is kept. -/

namespace Redeploy.Yaml.Block

/-- What becomes of the line breaks at the end. -/
inductive Chomping where
  /-- All are dropped. -/
  | strip
  /-- One is kept. -/
  | clip
  /-- All are kept. -/
  | keep
  deriving DecidableEq, Repr

/-- The header of a block scalar. -/
structure Header where
  /-- What becomes of the line breaks at the end. -/
  chomping : Chomping
  /-- How much deeper than their surroundings the lines are indented, if it is said. -/
  indentation : Option Nat
  deriving DecidableEq, Repr

/-- The chomping that a sign asks for. -/
def chomping? (c : Char) : Option Chomping :=
  if c = '+' then some .keep else if c = '-' then some .strip else none

/-- The sign of the chomping, if one stands here. -/
def readChomping : List Glyph → Chomping × List Glyph
  | [] => (.clip, [])
  | g :: rest =>
    match chomping? g.char with
    | some c => (c, rest)
    | none => (.clip, g :: rest)

/-- The digit of the indentation, if one stands here; it is not zero. -/
def readIndentation : List Glyph → Option (Option Nat × List Glyph)
  | [] => some (none, [])
  | g :: rest =>
    if isAsciiDigit g.char then
      if g.char = '0' then none else some (some (g.char.toNat - 48), rest)
    else some (none, g :: rest)

/-- The header: the two indicators in either order, and the end of the line. -/
def readHeader (gs : List Glyph) : Option (Header × List Glyph) := do
  let header ← if startsWith (fun c => (chomping? c).isSome) gs then do
      let (chomping, rest) := readChomping gs
      let (indentation, rest) ← readIndentation rest
      pure (Header.mk chomping indentation, rest)
    else do
      let (indentation, rest) ← readIndentation gs
      let (chomping, rest) := if indentation.isSome then readChomping rest else (.clip, rest)
      pure (Header.mk chomping indentation, rest)
  let rest ← endOfLine? header.2
  return (header.1, rest)

/-- Skip the indentation of the lines ahead and gather the breaks of those that hold nothing else.
    The answer is the deepest column reached, the breaks, and what follows. If `indent` is not
    known, all spaces count as indentation. A tab cannot stand in for it. -/
def skipIndentation (indent : Option Nat) (deepest : Nat) (breaks : Text) :
    List Glyph → Option (Nat × Text × List Glyph)
  | [] => some (deepest, breaks, [])
  | g :: rest =>
    let within := match indent with
      | some n => decide (g.column < n)
      | none => true
    if g.char == ' ' && within then skipIndentation indent deepest breaks rest
    else if g.char == '\t' && within then none
    else if isBreak g.char then
      skipIndentation indent (max deepest g.column) (breaks ++ [g.char]) rest
    else some (max deepest g.column, breaks, g :: rest)

/-- What has been read of a block scalar. -/
structure Lines where
  /-- The text up to the last line that holds something, without its break. -/
  text : Text
  /-- The break of that line. -/
  lastBreak : Text
  /-- The breaks of the empty lines since. -/
  emptyLines : Text
  /-- Whether that line starts with a blank. -/
  blankStart : Bool

namespace Lines

/-- Whether the break before a line reads as a space or as nothing, so that the line follows on. -/
def folds (literal blankStart : Bool) (s : Lines) : Bool :=
  !literal && s.lastBreak == ['\n'] && !s.blankStart && !blankStart

/-- The text in front of a further line. -/
def joint (literal blankStart : Bool) (s : Lines) : Text :=
  if s.folds literal blankStart then (if s.emptyLines.isEmpty then [' '] else s.emptyLines)
  else s.lastBreak ++ s.emptyLines

/-- The text of the scalar. -/
def chomp (s : Lines) : Chomping → Text
  | .strip => s.text
  | .clip => s.text ++ s.lastBreak
  | .keep => s.text ++ s.lastBreak ++ s.emptyLines

end Lines

/-- Read the lines of the scalar that are indented as far as they have to be. -/
def readLines (literal : Bool) (indent : Nat) :
    (steps : Nat) → Lines → List Glyph → Option (Lines × List Glyph)
  | 0, s, gs => some (s, gs)
  | _ + 1, s, [] => some (s, [])
  | steps + 1, s, g :: rest =>
    if g.column = indent then
      let blankStart := isBlank g.char
      let (line, behind) := takeText (fun c => !isBreak c) (g :: rest)
      match skipIndentation (some indent) 0 [] (behind.drop 1) with
      | none => none
      | some (_, emptyLines, rest') =>
        readLines literal indent steps
          ⟨s.text ++ s.joint literal blankStart ++ line, spelled (behind.take 1), emptyLines,
            blankStart⟩ rest'
    else some (s, g :: rest)

/-- The scalar whose indicator has just been read, and what follows it. `indents` are the columns of
    the open blocks, the innermost first; `inner` is the least column of what belongs to it. -/
def read? (literal : Bool) (indents : List Nat) (inner : Nat) (gs : List Glyph) :
    Option (Text × List Glyph) := do
  let (header, rest) ← readHeader gs
  let known := header.indentation.map fun n => indents.headD 0 + n
  let (deepest, emptyLines, rest) ← skipIndentation known 0 [] rest
  let indent := known.getD (max (max deepest inner) 1)
  let (s, rest) ← readLines literal indent (rest.length + 1) ⟨[], [], emptyLines, false⟩ rest
  return (s.chomp header.chomping, rest)

end Redeploy.Yaml.Block
