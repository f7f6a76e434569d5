set_option autoImplicit false

/-! # Errors

Why a migration, or the reading of its settings, fails. Every cause is a constructor, and `message`
is the one place where the wordings stand. -/

namespace Redeploy

/-- The arguments of a deprecated call that stand for blocks. -/
inductive BlockRole where
  /-- Where the code of a flow is fetched from. -/
  | remoteSource
  /-- What a flow runs on. -/
  | executionEnvironment
  deriving DecidableEq, Repr

namespace BlockRole

/-- The keyword argument that has this role. -/
def keyword : BlockRole → String
  | remoteSource => "storage"
  | executionEnvironment => "infrastructure"

/-- The name of the role in data. -/
def label : BlockRole → String
  | remoteSource => "remote_source"
  | executionEnvironment => "execution_environment"

/-- The role that a name in data stands for. -/
def ofLabel? (label : String) : Option BlockRole :=
  [remoteSource, executionEnvironment].find? fun r => r.label == label

end BlockRole

/-- Why settings or a block catalog cannot be used. -/
inductive ConfigError where
  /-- The settings do not say which version of the format they are in. -/
  | missingVersion
  /-- The settings are in a version of the format that is not known. -/
  | unsupportedVersion (found : Nat) (supported : List Nat)
  /-- A value is of the right type but cannot be used. -/
  | invalidField (field reason : String)
  /-- A file cannot be read. -/
  | unreadable
  /-- A text is not YAML of the expected shape. -/
  | badYaml
  /-- A text is not JSON of the expected shape. -/
  | badJson
  deriving DecidableEq, Repr

namespace ConfigError

/-- The wording of an error. -/
def message : ConfigError → String
  | missingVersion =>
    "Missing 'version' field in configuration file. Add 'version: 1' to the top of your YAML file."
  | unsupportedVersion found supported =>
    "Unsupported configuration version " ++ toString found ++ ". Supported versions: " ++
      ", ".intercalate (supported.map toString)
  | invalidField field reason => "Invalid value for field '" ++ field ++ "': " ++ reason
  | unreadable => "IO error"
  | badYaml => "YAML parsing error"
  | badJson => "JSON parsing error"

end ConfigError

/-- Why a script cannot be migrated. -/
inductive MigrateError where
  /-- The script is not in the language. -/
  | syntaxError (file message : String)
  /-- A deprecated call has no flow to deploy. -/
  | malformedCall (file : String) (line column : Nat) (reason : String)
  /-- A call names a block that is not stored. -/
  | unknownBlock (slug : String) (role : BlockRole) (file : String) (line : Nat)
  /-- The block store failed. -/
  | store (reason : String)
  /-- The settings cannot be used. -/
  | config (error : ConfigError)
  /-- The script cannot be read. -/
  | unreadable
  /-- Two changes to the script meet. -/
  | conflictingEdits
  deriving DecidableEq, Repr

namespace MigrateError

/-- The wording of an error. -/
def message : MigrateError → String
  | syntaxError file message => "Parse error in " ++ file ++ ": " ++ message
  | malformedCall file line column reason =>
    "Malformed build_from_flow call at " ++ file ++ ":" ++ toString line ++ ":" ++
      toString column ++ ": " ++ reason
  | unknownBlock slug role file line =>
    "Unresolvable " ++ role.keyword ++ " identifier '" ++ slug ++ "' at " ++ file ++ ":" ++
      toString line
  | store reason => "Block resolver error: " ++ reason
  | config error => error.message
  | unreadable => "IO error"
  | conflictingEdits => "edits of the script overlap"

end MigrateError

end Redeploy
