import Redeploy.Text.Basic

set_option autoImplicit false

/-! # Imports

What one clause of an import statement binds, and what a migrated script needs to import. -/

namespace Redeploy

/-- The texts between the points of a dotted path. -/
def pathSegments (path : String) : List String :=
  (Text.splitOn '.' path.toList).map String.ofList

/-- A dotted path cut at its first point. -/
def splitHead (path : String) : String × Option String :=
  match Text.splitFirst? '.' path.toList with
  | some (head, rest) => (String.ofList head, some (String.ofList rest))
  | none => (path, none)

/-- One name that an import statement binds: `import module`, `import module as alias`,
    `from module import name` or `from module import name as alias`. -/
structure Import where
  /-- The module. -/
  module : String
  /-- The name that is taken from the module, if the statement names one. -/
  name : Option String
  /-- The name after `as`. -/
  asName : Option String
  deriving DecidableEq, Repr

namespace Import

/-- The name that the script can use afterwards. Importing a module without an alias binds the
    package that the path starts at. -/
def boundName (i : Import) : String :=
  match i.asName, i.name with
  | some newName, _ => newName
  | none, some name => name
  | none, none => (splitHead i.module).1

/-- The full path that the bound name stands for. -/
def qualifiedName (i : Import) : String :=
  match i.name, i.asName with
  | some name, _ => i.module ++ "." ++ name
  | none, some _ => i.module
  | none, none => i.boundName

end Import

/-- A name that a migrated script uses and has to import under its own name. -/
structure RequiredImport where
  /-- The module. -/
  module : String
  /-- The name in the module. -/
  name : String
  deriving DecidableEq, Repr

namespace RequiredImport

/-- The import statement. -/
def text (r : RequiredImport) : String :=
  "from " ++ r.module ++ " import " ++ r.name

/-- Whether an import brings exactly this name into the script, under its own name. -/
def isSatisfiedBy (r : RequiredImport) (i : Import) : Bool :=
  i.module == r.module && i.name == some r.name && i.boundName == r.name

/-- The order of import lines: by module, then by name. -/
def precedes (r s : RequiredImport) : Bool :=
  decide (r.module < s.module) || (r.module == s.module && decide (r.name < s.name))

/-- Add an import to a list in order, once. -/
def insert (r : RequiredImport) : List RequiredImport → List RequiredImport
  | [] => [r]
  | s :: rest =>
    if r = s then s :: rest
    else if r.precedes s then r :: s :: rest
    else s :: insert r rest

end RequiredImport

end Redeploy
