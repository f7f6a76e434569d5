import Redeploy.Migration.DeadImport
import Redeploy.Migration.Traversal
import Redeploy.Script.Insertion

set_option autoImplicit false

/-! # The edits of a migration

The changes that a migration makes to a script, and the script with all of them made: every call
replaced, missing imports added behind the head of the script, and dead imports taken out. -/

namespace Redeploy.Migration

namespace Found

/-- The notes of all calls, in order. -/
def advisories (f : Found) : List Advisory :=
  f.calls.flatMap fun call => call.classified.advisories

/-- What the replacements need to have imported, each import once and in order. -/
def requiredImports (f : Found) : List RequiredImport :=
  (f.calls.flatMap fun call => call.classified.requiredImports).foldr RequiredImport.insert []

/-- The required imports that are not in effect at the end of the script. -/
def missingImports (f : Found) : List RequiredImport :=
  f.requiredImports.filter fun r => !f.scope.satisfies r

/-- What tells which imports are still in use. -/
def usage (f : Found) (script : Script) : Usage :=
  ⟨script, f.calls.map fun call => call.classified.span,
    f.calls.map fun call => call.classified.replacementText⟩

/-! ## Edits -/

/-- The edits that replace the calls. -/
def callEdits (f : Found) : List Edit :=
  f.calls.map fun call =>
    let span := call.classified.span
    ⟨span.startByte, span.endByte, call.classified.replacementText.toList⟩

/-- The edit that adds the missing imports, one a line. -/
def importEdits (f : Found) (script : Script) : List Edit :=
  match f.missingImports with
  | [] => []
  | missing =>
    [⟨script.insertionOffset, script.insertionOffset,
      missing.flatMap fun r => r.text.toList ++ ['\n']⟩]

/-- All edits of a migration. -/
def edits (f : Found) (script : Script) : List Edit :=
  f.callEdits ++ f.importEdits script ++ (f.usage script).edits

/-- The text of the script after the migration. -/
def updatedSource (f : Found) (script : Script) : Except MigrateError Text :=
  match splice script.source (f.edits script) with
  | some t => .ok t
  | none => .error .conflictingEdits

end Found

end Redeploy.Migration
