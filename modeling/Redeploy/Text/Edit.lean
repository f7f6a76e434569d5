import Redeploy.Text.Basic

set_option autoImplicit false

/-! # Edits

An edit replaces a byte range of a text. `splice` carries a list of edits out one after the other,
from the back to the front, so that an edit never moves the range of one still to come. Beside it
stands `substitute`, which reads the edits from the front and writes the gaps and the new texts in
turn: what splicing means when no two edits meet. -/

namespace Redeploy

/-- Replace the bytes of a range by a text. An empty range inserts. -/
structure Edit where
  /-- Byte offset where the range starts. -/
  start : Nat
  /-- Byte offset past the range. -/
  stop : Nat
  /-- What stands there afterwards. -/
  text : Text
  deriving DecidableEq, Repr

namespace Edit

/-- Carry out one edit; `none` if its range is inverted, out of bounds or cuts a character. -/
def carryOut? (e : Edit) (t : Text) : Option Text :=
  if e.start ≤ e.stop then
    match t.splitAt? e.start with
    | none => none
    | some (before, rest) =>
      match rest.splitAt? (e.stop - e.start) with
      | none => none
      | some (_, after) => some (before ++ e.text ++ after)
  else none

/-- The order of carrying out: later ranges first, and of two with one start the one that ends
    later. -/
def backToFront (a b : Edit) : Bool :=
  b.start < a.start || (a.start == b.start && b.stop ≤ a.stop)

/-- Carry out edits in the order given. -/
def carryOutAll? : List Edit → Text → Option Text
  | [], t => some t
  | e :: es, t => (e.carryOut? t).bind (carryOutAll? es)

end Edit

/-- Carry out a list of edits from the back of the text to its front. Edits of one range keep their
    order. `none` if one of them cannot be carried out on the text left by those before it. -/
def splice (t : Text) (edits : List Edit) : Option Text :=
  Edit.carryOutAll? (edits.mergeSort Edit.backToFront) t

/-- Write a text that starts at byte offset `at_` with edits in increasing order carried out: the
    gaps between the ranges as they are, and each edit's text between its neighbouring gaps. -/
def substituteFrom (at_ : Nat) : List Edit → Text → Option Text
  | [], t => some t
  | e :: es, t =>
    if at_ ≤ e.start ∧ e.start ≤ e.stop then
      (t.splitAt? (e.start - at_)).bind fun (gap, rest) =>
        (rest.splitAt? (e.stop - e.start)).bind fun (_, after) =>
          (substituteFrom e.stop es after).map fun written => gap ++ e.text ++ written
    else none

/-- The text with edits in increasing order carried out all at once. -/
def substitute (t : Text) (edits : List Edit) : Option Text :=
  substituteFrom 0 edits t

end Redeploy
