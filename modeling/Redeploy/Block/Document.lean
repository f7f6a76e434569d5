import Redeploy.Value

set_option autoImplicit false

/-! # Block documents

What is stored of a block: named values, of which a migration reads the container image only. -/

namespace Redeploy

/-- The stored settings of a block. -/
abbrev Document := Fields

namespace Document

/-- The container image that a block is configured with. A blank string counts as no image, and so
    does any value that is not a string. -/
def image? (d : Document) : Option String :=
  match Table.get? "image" d with
  | some (.text image) => if Text.isBlank image.toList then none else some image
  | _ => none

end Document

end Redeploy
