import Redeploy.File
import Redeploy.Migration.Report

set_option autoImplicit false

/-! # Migrating a script

The whole way from the text of a script to the report of its migration. The settings are checked
first; a script without a deprecated call is left alone. -/

namespace Redeploy

/-- What comes of a migration. -/
inductive Outcome where
  /-- The script has no deprecated call. -/
  | nothingToMigrate
  /-- The script has been migrated. -/
  | migrated (report : Report)
  deriving DecidableEq, Repr

namespace Migration

/-- The report of what has been found in a script. -/
def report (script : Script) (f : Found) : Except MigrateError Report :=
  (f.updatedSource script).map fun updated => {
    file := script.file
    calls := CallReport.numbered 1 f.calls
    advisories := f.advisories.map Advisory.text
    requiredImports := f.requiredImports.map RequiredImport.text
    updatedSource := String.ofList updated }

/-- Migrate a script that has been read. -/
def migrateScript (setting : Setting) (script : Script) : Except MigrateError Outcome := do
  let f ← find setting script
  if f.calls.isEmpty then return .nothingToMigrate
  return .migrated (← report script f)

/-- Migrate a script given by its name and text. -/
def migrateSource (setting : Setting) (file : String) (source : Text) :
    Except MigrateError Outcome := do
  setting.config.validate.mapError MigrateError.config
  migrateScript setting (← Script.read file source)

/-- Migrate a script given by its file. -/
def migrateFile (setting : Setting) (file : File) : Except MigrateError Outcome :=
  match file.text? with
  | some source => migrateSource setting file.name source
  | none => .error .unreadable

end Migration

end Redeploy
