import Redeploy.Error
import Redeploy.Syntax.Parse

set_option autoImplicit false

/-! # Scripts

A script that has been read: its name, its text and its tree. -/

namespace Redeploy

/-- A script that has been read. -/
structure Script where
  /-- The name of the file. -/
  file : String
  /-- The text. -/
  source : Text
  /-- The tree of the text. -/
  root : Syntax.Tree

namespace Script

/-- Read a script. -/
def read (file : String) (source : Text) : Except MigrateError Script :=
  match Syntax.parse source with
  | .ok root => .ok ⟨file, source, root⟩
  | .error fault => .error (.syntaxError file fault.message)

/-- The statements of the script itself, not of its functions and classes. -/
def statements (s : Script) : List Syntax.Tree :=
  s.root.children

end Script

end Redeploy
