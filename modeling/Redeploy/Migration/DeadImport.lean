import Redeploy.Migration.Deprecated
import Redeploy.Script.Basic
import Redeploy.Text.Edit

set_option autoImplicit false

/-! # Imports that are no longer used

An import of the deprecated class is dead if nothing but the replaced calls used the name that it
binds, and no replacement uses it either. A statement that imports dead names only is deleted with
its line; any other one is written anew with the names that are left. -/

namespace Redeploy.Migration

open Syntax (Tree Kind)

/-! ## Uses of a name -/

/-- Whether a node lies within one of several spans. -/
def isReplaced (replaced : List Span) (s : Span) : Bool :=
  replaced.any fun r => r.contains s

mutual

/-- Whether a name is used below a node, outside import statements and replaced calls. -/
def isReferenced (source : Text) (name : String) (replaced : List Span) : Tree → Bool
  | .node kind role span children =>
    if kind == .importStatement || kind == .importFromStatement then false
    else if isReplaced replaced span then false
    else if kind == .identifier then Tree.text source (.node kind role span children) == name
    else isReferencedIn source name replaced children

/-- Whether a name is used below one of several nodes. -/
def isReferencedIn (source : Text) (name : String) (replaced : List Span) : List Tree → Bool
  | [] => false
  | t :: ts => isReferenced source name replaced t || isReferencedIn source name replaced ts

end

/-- The characters that a name can have. -/
def isNameChar (c : Char) : Bool :=
  c == '_' || isAlphanumeric c

/-- Whether a name stands in a text as a word of its own. -/
def mentions (text name : String) : Bool :=
  (Text.splitWhere (fun c => !isNameChar c) text.toList).any fun word => word == name.toList

/-! ## Dead imports -/

/-- The imported name and the name that it is bound to. -/
def importedAs? (source : Text) (t : Tree) : Option (String × String) :=
  match t.kind with
  | .dottedName => some (t.text source, t.text source)
  | .aliasedImport =>
    match t.child? .name, t.child? .asName with
    | some name, some newName => some (name.text source, newName.text source)
    | _, _ => none
  | _ => none

/-- What tells whether a name is still in use. -/
structure Usage where
  /-- The script. -/
  script : Script
  /-- The places of the calls that are replaced. -/
  replaced : List Span
  /-- What they are replaced by. -/
  replacements : List String

namespace Usage

/-- Whether a name is in use after the migration. -/
def isUsed (u : Usage) (name : String) : Bool :=
  isReferenced u.script.source name u.replaced u.script.root ||
    u.replacements.any fun text => mentions text name

/-- Whether one name of an import statement is an unused import of the deprecated class. -/
def isDead (u : Usage) (module : String) (t : Tree) : Bool :=
  match importedAs? u.script.source t with
  | some (imported, bound) =>
    Deprecated.classPaths.contains (module ++ "." ++ imported) && !u.isUsed bound
  | none => false

/-- The edit of one statement, if some of its imports are dead. -/
def editOf? (u : Usage) (t : Tree) : Option Edit :=
  let source := u.script.source
  match t.kind, t.child? .moduleName with
  | .importFromStatement, some m =>
    let module := m.text source
    let names := t.childrenIn .name
    let kept := names.filter fun name => !u.isDead module name
    if names.all fun name => !u.isDead module name then none
    else if kept.isEmpty then
      some ⟨t.span.startByte, source.lineEnd t.span.endByte, []⟩
    else
      let list := ", ".intercalate (kept.map (Tree.text source))
      some ⟨t.span.startByte, t.span.endByte, ("from " ++ module ++ " import " ++ list).toList⟩
  | _, _ => none

/-- The edits that take dead imports out of a script. -/
def edits (u : Usage) : List Edit :=
  u.script.statements.filterMap u.editOf?

end Usage

end Redeploy.Migration
