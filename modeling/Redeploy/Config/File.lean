import Redeploy.Config.Basic
import Redeploy.File
import Redeploy.Yaml.Data
import Redeploy.Yaml.Written

set_option autoImplicit false

/-! # Settings files

Settings are kept as YAML. A file has to say which version of the format it is in; every other
setting may be left out or be empty and then has its standard value. What is written has all of
them. -/

namespace Redeploy

/-! ## Reading -/

namespace LoadHelper

/-- The helper that a node describes: all of its names have to be given. -/
def ofNode? (n : Yaml.Node) : Option LoadHelper := do
  let fields ← n.record? ["module", "name", "method"]
  let module ← (Table.get? "module" fields).bind Yaml.Node.text?
  let name ← (Table.get? "name" fields).bind Yaml.Node.text?
  let method ← (Table.get? "method" fields).bind Yaml.Node.text?
  return ⟨module, name, method⟩

end LoadHelper

namespace Config

/-- What a settings file says. -/
structure Given where
  /-- The version of the settings format. -/
  version : Option Nat
  /-- The images that need not be named. -/
  defaultImagePrefixes : Option (List String)
  /-- The helper that loads blocks. -/
  loadHelper : Option LoadHelper
  /-- Whether to look for the images of blocks at hand. -/
  resolveBoundReferences : Option Bool
  deriving DecidableEq, Repr

/-- The names of the settings. -/
def settingNames : List String :=
  ["version", "default_image_prefixes", "load_helper", "resolve_bound_references"]

/-- A setting that may be left out or be empty. -/
def setting? {α : Type} (name : String) (reader : Yaml.Node → Option α) (fields : Table Yaml.Node) :
    Option (Option α) :=
  match Table.get? name fields with
  | some n => n.optional? reader
  | none => some none

/-- What a node says as a settings file. -/
def Given.ofNode? (n : Yaml.Node) : Option Given := do
  let fields ← n.record? settingNames
  let version ← setting? "version" Yaml.Node.nat32? fields
  let starts ← setting? "default_image_prefixes"
    (fun n => n.items?.bind fun items => items.mapM Yaml.Node.text?) fields
  let helper ← setting? "load_helper" LoadHelper.ofNode? fields
  let resolve ← setting? "resolve_bound_references" Yaml.Node.bool? fields
  return ⟨version, starts, helper, resolve⟩

/-- The settings of a file, with standard values for what it does not say. -/
def ofGiven (g : Given) : Except ConfigError Config := do
  match g.version with
  | none => .error .missingVersion
  | some version =>
    let c : Config := {
      version := version
      defaultImagePrefixes := g.defaultImagePrefixes.getD standard.defaultImagePrefixes
      loadHelper := g.loadHelper.getD standard.loadHelper
      resolveBoundReferences := g.resolveBoundReferences.getD standard.resolveBoundReferences }
    c.validate
    return c

/-- The settings that a YAML text describes. -/
def ofYaml (t : Text) : Except ConfigError Config :=
  match (Yaml.parse? t).bind Given.ofNode? with
  | some given => ofGiven given
  | none => .error .badYaml

/-- The settings that a file describes. -/
def ofFile (f : File) : Except ConfigError Config :=
  match f.text? with
  | some t => ofYaml t
  | none => .error .unreadable

/-! ## Writing -/

/-- How deep the lines of an item or of a setting go on. -/
def itemIndent : Nat := 2

/-- How deep the lines of a setting within a setting go on. -/
def nestedIndent : Nat := 4

/-- The image prefixes of a settings file. -/
def writePrefixes : List String → Text
  | [] => " []\n".toList
  | starts =>
    '\n' :: starts.flatMap fun start => '-' :: ' ' :: Yaml.Written.scalar itemIndent start.toList

/-- One name of the load helper in a settings file. -/
def writeHelperName (label value : String) : Text :=
  ("  " ++ label ++ ": ").toList ++ Yaml.Written.scalar nestedIndent value.toList

/-- The load helper of a settings file. -/
def writeHelper (h : LoadHelper) : Text :=
  writeHelperName "module" h.module ++ writeHelperName "name" h.name ++
    writeHelperName "method" h.method

/-- The settings as a YAML text. -/
def toYaml (c : Config) : Text :=
  ("version: " ++ toString c.version ++ "\n").toList ++
    "default_image_prefixes:".toList ++ writePrefixes c.defaultImagePrefixes ++
    "load_helper:\n".toList ++ writeHelper c.loadHelper ++
    ("resolve_bound_references: " ++ toString c.resolveBoundReferences ++ "\n").toList

end Config

end Redeploy
