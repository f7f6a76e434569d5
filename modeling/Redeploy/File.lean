import Redeploy.Text.Basic

set_option autoImplicit false

/-! # Files

A file as a migration sees it: its name, and its bytes if it exists. -/

namespace Redeploy

/-- A file that may or may not exist. -/
structure File where
  /-- The name. -/
  name : String
  /-- The bytes; `none` if there is no such file. -/
  bytes : Option ByteArray

namespace File

/-- The text of the file; `none` if there is no file or if it is not UTF-8. -/
def text? (f : File) : Option Text :=
  f.bytes.bind fun bytes => (String.fromUTF8? bytes).map String.toList

/-- What follows the last point of a reversed name. A point in front of everything else starts no
    extension. -/
def extensionOfReversed? (reversed : Text) : Option Text :=
  match Text.splitFirst? '.' reversed with
  | some (extension, stem) => if stem.isEmpty then none else some extension.reverse
  | none => none

/-- Whether the file has the extension. -/
def hasExtension (f : File) (extension : String) : Bool :=
  f.name != ".." && extensionOfReversed? f.name.toList.reverse == some extension.toList

end File

end Redeploy
