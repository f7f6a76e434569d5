import Redeploy.Binding.Import
import Redeploy.Syntax.Tree

set_option autoImplicit false

/-! # Names that a script binds

What the statements of a script say about names: the imports of an import statement, the name and
value of an assignment to a single name, and the names that any target binds. -/

namespace Redeploy.Script

open Syntax (Tree Kind)

/-- The path and alias of one name in an import statement. -/
def pathAndAlias? (source : Text) (t : Tree) : Option (String × Option String) :=
  match t.kind with
  | .dottedName => some (t.text source, none)
  | .aliasedImport =>
    (t.child? .name).map fun name =>
      (name.text source, (t.child? .asName).map (Tree.text source))
  | _ => none

/-- The imports of a statement. Importing all names of a module binds no name that can be told. -/
def importsOf (source : Text) (t : Tree) : List Import :=
  let names := (t.childrenIn .name).filterMap (pathAndAlias? source)
  match t.kind with
  | .importStatement => names.map fun (path, newName) => ⟨path, none, newName⟩
  | .importFromStatement =>
    match t.child? .moduleName with
    | some m => names.map fun (path, newName) => ⟨m.text source, some path, newName⟩
    | none => []
  | _ => []

/-- The name and the value of an assignment to a single name. -/
def assignmentTarget? (source : Text) (t : Tree) : Option (String × Tree) :=
  if t.kind == .assignment then
    match t.child? .left, t.child? .right with
    | some left, some right =>
      if left.kind == .identifier && right.kind != .assignment then
        some (left.text source, right)
      else none
    | _, _ => none
  else none

mutual

/-- The names that a target binds, in order. A target that is an attribute or a subscript of a value
    binds no name. -/
def boundNames (source : Text) : Tree → List String
  | .node kind role span children =>
    match kind with
    | .identifier => [Tree.text source (.node kind role span children)]
    | .attributeAccess | .subscript => []
    | .asPatternTarget =>
      if children.isEmpty then [Tree.text source (.node kind role span children)]
      else boundNamesAll source children
    | _ => boundNamesAll source children

/-- The names that several targets bind. -/
def boundNamesAll (source : Text) : List Tree → List String
  | [] => []
  | t :: ts => boundNames source t ++ boundNamesAll source ts

end

end Redeploy.Script
