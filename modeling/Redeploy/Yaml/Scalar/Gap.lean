import Redeploy.Yaml.Glyph

set_option autoImplicit false

/-! # Gaps

The blank space between two words of a scalar. Within a line it is kept as it is. Over a line break
it is folded: one break reads as a space, and of more breaks all but the first are kept. Line and
paragraph separators are never folded away. -/

namespace Redeploy.Yaml

/-- The blank space between two words. -/
inductive Gap where
  /-- Blanks within a line. -/
  | blanks (t : Text)
  /-- A line break and the breaks of the empty lines behind it. `first` is empty where the first
      break was escaped. -/
  | breaks (first more : Text)
  deriving DecidableEq, Repr

namespace Gap

/-- No blank space at all. -/
def none : Gap := .blanks []

/-- Whether the gap goes over a line break. -/
def isBreaks : Gap → Bool
  | blanks _ => false
  | breaks _ _ => true

/-- Whether there is no blank space at all. -/
def isNone : Gap → Bool
  | blanks t => t.isEmpty
  | breaks _ _ => false

/-- The gap with one more blank: around line breaks blanks do not count. -/
def addBlank (c : Char) : Gap → Gap
  | blanks t => blanks (t ++ [c])
  | breaks first more => breaks first more

/-- The gap with one more line break: blanks before the first break do not count. -/
def addBreak (c : Char) : Gap → Gap
  | blanks _ => breaks [c] []
  | breaks first more => breaks first (more ++ [c])

/-- What the gap reads as. -/
def folded : Gap → Text
  | blanks t => t
  | breaks first more =>
    if first = ['\n'] then (if more.isEmpty then [' '] else more) else first ++ more

end Gap

end Redeploy.Yaml
