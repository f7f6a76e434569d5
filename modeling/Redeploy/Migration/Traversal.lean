import Redeploy.Call.Classify
import Redeploy.Migration.Deprecated
import Redeploy.Script.Basic
import Redeploy.Script.Lower
import Redeploy.Script.Names

set_option autoImplicit false

/-! # Finding the deprecated calls

One walk over the tree of a script, in the order in which it is written. The walk keeps the scope of
the script up to date and classifies every call of the deprecated class that it meets. It does not
look into such a call, nor into import statements; and what is bound within functions, classes and
lambdas does not count. The first call that cannot be classified ends the walk. -/

namespace Redeploy

/-- A call that is to be replaced. -/
structure MigratedCall where
  /-- The call as it is written. -/
  writtenText : String
  /-- Its arguments sorted, and its replacement. -/
  classified : ClassifiedCall

namespace Migration

open Syntax (Tree Kind)

/-- What a walk depends on besides the script. -/
structure Setting where
  /-- Where blocks are looked up. -/
  resolver : Resolver
  /-- The settings. -/
  config : Config

/-- What a walk has found so far. -/
structure Found where
  /-- The calls, in the order met. -/
  calls : List MigratedCall
  /-- What the names of the script stand for. -/
  scope : Scope

namespace Found

/-- Before the walk. -/
def nothing : Found := ⟨[], .empty⟩

/-- The scope changed by a function. -/
def withScope (f : Found) (change : Scope → Scope) : Found :=
  { f with scope := change f.scope }

end Found

/-! ## Bindings -/

/-- Forget the names that the target in a role binds. -/
def forgetTarget (source : Text) (r : Syntax.Role) (t : Tree) (s : Scope) : Scope :=
  match t.child? r with
  | some target => s.forgetAll (Script.boundNames source target)
  | none => s

/-- Record an assignment: the value of a single name, or that the names are no longer known. -/
def bindAssignment (source : Text) (t : Tree) (s : Scope) : Scope :=
  match Script.assignmentTarget? source t with
  | some (name, value) => s.recordAssignment name (Script.lower source value)
  | none => forgetTarget source .left t s

/-- Record the imports of a statement. -/
def bindImports (source : Text) (t : Tree) (s : Scope) : Scope :=
  (Script.importsOf source t).foldl Scope.recordImport s

/-- Forget the name of a definition. -/
def forgetDefinition (source : Text) (t : Tree) (s : Scope) : Scope :=
  match t.child? .name with
  | some name => s.forget (name.text source)
  | none => s

/-- What a node binds before the nodes under it are walked. -/
def bindBefore (source : Text) (t : Tree) (s : Scope) : Scope :=
  match t.kind with
  | .functionDefinition | .classDefinition | .lambda => forgetDefinition source t s
  | .forStatement => forgetTarget source .left t s
  | .asPatternTarget => s.forgetAll (Script.boundNames source t)
  | .namedExpression => forgetTarget source .name t s
  | _ => s

/-- What a node binds after the nodes under it have been walked. -/
def bindAfter (source : Text) (t : Tree) (s : Scope) : Scope :=
  match t.kind with
  | .assignment => bindAssignment source t s
  | .augmentedAssignment => forgetTarget source .left t s
  | _ => s

/-! ## Calls -/

/-- Whether a node is a call of the deprecated class. -/
def isDeprecatedCall (source : Text) (s : Scope) (t : Tree) : Bool :=
  t.kind == .call &&
    match t.child? .function with
    | some function =>
      function.kind == .attributeAccess &&
        match function.child? .attributeName, function.child? .object with
        | some method, some receiver =>
          method.text source == Deprecated.method &&
            Deprecated.isClass s (Script.lower source receiver)
        | _, _ => false
    | none => false

/-- Classify a call and add it to what has been found. -/
def recordCall (setting : Setting) (script : Script) (t : Tree) (f : Found) :
    Except MigrateError Found :=
  let site : CallSite := ⟨Script.lower script.source t, t.span⟩
  (site.classify ⟨script.file, f.scope, setting.resolver, setting.config⟩).map fun c =>
    { f with calls := f.calls ++ [⟨t.text script.source, c⟩] }

/-! ## The walk -/

/-- Whether bindings below a node are those of a scope of its own. -/
def opensScope : Kind → Bool
  | .functionDefinition | .classDefinition | .lambda => true
  | _ => false

/-- Whether a node is an import statement. -/
def isImport : Kind → Bool
  | .importStatement | .importFromStatement => true
  | _ => false

mutual

/-- Walk over a node; `inner` within functions, classes and lambdas. -/
def visit (setting : Setting) (script : Script) (inner : Bool) : Tree → Found →
    Except MigrateError Found
  | .node kind role span children, f =>
    let t : Tree := .node kind role span children
    if isDeprecatedCall script.source f.scope t then recordCall setting script t f
    else if inner then visitAll setting script true children f
    else if isImport kind then .ok (f.withScope (bindImports script.source t))
    else
      (visitAll setting script (opensScope kind) children
        (f.withScope (bindBefore script.source t))).map fun f' =>
          f'.withScope (bindAfter script.source t)

/-- Walk over several nodes. -/
def visitAll (setting : Setting) (script : Script) (inner : Bool) : List Tree → Found →
    Except MigrateError Found
  | [], f => .ok f
  | t :: ts, f =>
    match visit setting script inner t f with
    | .ok f' => visitAll setting script inner ts f'
    | .error e => .error e

end

/-- Walk over a script. -/
def find (setting : Setting) (script : Script) : Except MigrateError Found :=
  visit setting script false script.root .nothing

end Migration

end Redeploy
