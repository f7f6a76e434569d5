import Redeploy.Json.Printer
import Redeploy.Migration.Edits

set_option autoImplicit false

/-! # Reports

What a migration did to a script, call by call. -/

namespace Redeploy

/-- One replaced call, before and after. -/
structure CallReport where
  /-- The number of the call, counted from 1. -/
  index : Nat
  /-- The name of the deployment as it is written. -/
  deploymentName : Option String
  /-- The line of the call. -/
  line : Nat
  /-- The call as it was. -/
  codeBefore : String
  /-- What it has been replaced by. -/
  codeAfter : String
  /-- What is left to do by hand. -/
  advisories : List Advisory
  deriving DecidableEq, Repr

/-- What a migration did to a script. -/
structure Report where
  /-- The name of the script. -/
  file : String
  /-- The replaced calls. -/
  calls : List CallReport
  /-- The notes of all calls. -/
  advisories : List String
  /-- The imports that the replacements need. -/
  requiredImports : List String
  /-- The text of the script afterwards. -/
  updatedSource : String
  deriving DecidableEq, Repr

namespace CallReport

/-- The report of a call. -/
def ofCall (index : Nat) (call : MigratedCall) : CallReport where
  index := index
  deploymentName := call.classified.deploymentName?
  line := call.classified.span.startLine
  codeBefore := call.writtenText
  codeAfter := call.classified.replacementText
  advisories := call.classified.advisories

/-- The reports of calls that are counted from a number on. -/
def numbered : (index : Nat) → List MigratedCall → List CallReport
  | _, [] => []
  | index, call :: calls => ofCall index call :: numbered (index + 1) calls

/-- The line above the report of a call. -/
def heading (r : CallReport) : String :=
  match r.deploymentName with
  | some name => "Deployment " ++ name
  | none => "Deployment #" ++ toString r.index

end CallReport

/-! ## Reports as data -/

/-- A note as data. -/
def Advisory.toValue (a : Advisory) : Value :=
  .object (("kind", .text a.kind) ::
    match a with
    | .serveMigration subject => [("subject", .text subject)]
    | .workPoolMigration => []
    | .imageConfiguration image => [("image", .text image)])

namespace CallReport

/-- The report of a call as data. -/
def toValue (r : CallReport) : Value :=
  .object [("index", .int r.index),
    ("deployment_name", match r.deploymentName with
      | some name => .text name
      | none => .null),
    ("line", .int r.line), ("original_code", .text r.codeBefore),
    ("updated_code", .text r.codeAfter), ("advisories", .list (r.advisories.map Advisory.toValue))]

end CallReport

namespace Report

/-- The report as data. -/
def toValue (r : Report) : Value :=
  .object [("file_path", .text r.file), ("calls", .list (r.calls.map CallReport.toValue)),
    ("advisories", .list (r.advisories.map .text)),
    ("required_imports", .list (r.requiredImports.map .text)),
    ("updated_source", .text r.updatedSource)]

/-- The report as a JSON text. -/
def toJson (r : Report) : String :=
  Json.pretty r.toValue

end Report

end Redeploy
