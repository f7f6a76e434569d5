import Redeploy.Yaml.Scalar.Gap

set_option autoImplicit false

/-! # Plain scalars

A scalar without quotes: words with gaps between them, up to something that can be no part of it. A
colon with a gap behind it ends it, and so does a `#` with a gap before it. Among brackets and
braces (in *flow*) it ends at one of them and at a comma; outside of them it ends at a line that is
not indented deeper than the collection it is in. -/

namespace Redeploy.Yaml.Plain

/-- Commas, brackets and braces. -/
def isFlowIndicator (c : Char) : Bool :=
  c == ',' || c == '[' || c == ']' || c == '\x7b' || c == '\x7d'

/-- Characters that no plain scalar starts with. Three of them can be the start after all where no
    gap follows them. -/
def isIndicator (c : Char) : Bool :=
  isFlowIndicator c || "-?:#&*!|>'\"%@`".toList.contains c

/-- Whether a plain scalar can start here. -/
def startsHere (flow : Bool) : List Glyph → Bool
  | [] => false
  | g :: rest =>
    !(isBlank g.char || isBreak g.char || isIndicator g.char) ||
      (g.char == '-' && !startsWith isBlank rest) ||
      (!flow && (g.char == '?' || g.char == ':') && !atGap rest)

/-- Whether a word ends before this glyph though no gap is there. -/
def wordEnds (flow : Bool) (g : Glyph) (rest : List Glyph) : Bool :=
  (g.char == ':' && atGap rest) || (flow && isFlowIndicator g.char)

/-- Whether the scalar ends behind a gap instead of going on with this glyph. -/
def endsBehindGap (inner : Nat) (flow : Bool) (g : Glyph) (rest : List Glyph) : Bool :=
  (!flow && g.column < inner) || atDocumentMarker (g :: rest) || g.char == '#'

/-- Whether a colon stands in flow where it could be taken for two things. -/
def isUnclearColon (flow : Bool) (g : Glyph) (rest : List Glyph) : Bool :=
  flow && g.char == ':' && startsWith (fun c => c == '?' || isFlowIndicator c) rest

/-- A plain scalar, the gap that it ends with, and what follows. `inner` is the least column of what
    belongs to the innermost block, `read` what has been read of the scalar, last character first,
    and `gap` the gap since. A tab cannot stand in for indentation. -/
def readFrom (inner : Nat) (flow : Bool) (read : Text) (gap : Gap) :
    List Glyph → Option (Text × Gap × List Glyph)
  | [] => some (read.reverse, gap, [])
  | g :: rest =>
    if isBlank g.char then
      if gap.isBreaks && g.char == '\t' && g.column < inner then none
      else readFrom inner flow read (gap.addBlank g.char) rest
    else if isBreak g.char then readFrom inner flow read (gap.addBreak g.char) rest
    else if !gap.isNone && endsBehindGap inner flow g rest then
      some (read.reverse, gap, g :: rest)
    else if isUnclearColon flow g rest then none
    else if wordEnds flow g rest then some (read.reverse, gap, g :: rest)
    else readFrom inner flow (g.char :: (gap.folded.reverse ++ read)) .none rest

/-- The plain scalar that starts here. -/
def read? (inner : Nat) (flow : Bool) (gs : List Glyph) : Option (Text × Gap × List Glyph) :=
  readFrom inner flow [] .none gs

end Redeploy.Yaml.Plain
