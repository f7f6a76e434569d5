import Redeploy.Block.Helper
import Redeploy.Error
import Redeploy.Text.CharClass

set_option autoImplicit false

/-! # Settings

The settings of a migration, and which of them can be used. -/

namespace Redeploy

/-- The settings of a migration. -/
structure Config where
  /-- The version of the settings format. -/
  version : Nat
  /-- Images that start with one of these need not be named in a migrated call. -/
  defaultImagePrefixes : List String
  /-- The helper that migrated code loads blocks with. -/
  loadHelper : LoadHelper
  /-- Whether to look for the image of a block that the script has at hand already. -/
  resolveBoundReferences : Bool
  deriving DecidableEq, Repr

namespace Config

/-- The settings that are used where none are given. -/
def standard : Config := ⟨1, ["prefecthq/prefect"], .standard, true⟩

/-- The versions of the settings format that are known. -/
def supportedVersions : List Nat := [1]

/-- Whether an image is one that work pools use anyway. -/
def isDefaultImage (c : Config) (image : String) : Bool :=
  c.defaultImagePrefixes.any fun start => start.toList.isPrefixOf image.toList

/-! ## Validation -/

/-- Whether a text is one identifier: letters, digits and underscores, with no digit in front. -/
def isIdentifier : Text → Bool
  | [] => false
  | c :: t => (c == '_' || isAlphabetic c) && t.all fun d => d == '_' || isAlphanumeric d

/-- Whether a text is a path of identifiers joined by points. -/
def isIdentifierPath (path : String) : Bool :=
  (Text.splitOn '.' path.toList).all isIdentifier

/-- Check one text of the load helper. -/
def checkPath (field value : String) : Except ConfigError Unit :=
  if isIdentifierPath value then .ok ()
  else .error (.invalidField field ("'" ++ value ++ "' is not a Python identifier path"))

/-- Check the load helper. -/
def checkHelper (h : LoadHelper) : Except ConfigError Unit := do
  checkPath "load_helper.module" h.module
  checkPath "load_helper.name" h.name
  checkPath "load_helper.method" h.method
  if h.name.toList.contains '.' || h.method.toList.contains '.' then
    .error (.invalidField "load_helper" "name and method must be plain identifiers")

/-- Check the image prefixes. -/
def checkPrefixes (starts : List String) : Except ConfigError Unit :=
  if starts.isEmpty then
    .error (.invalidField "default_image_prefixes" "at least one prefix is required")
  else if starts.any fun start => Text.isBlank start.toList then
    .error (.invalidField "default_image_prefixes" "prefixes must not be blank")
  else .ok ()

/-- Check the settings; the first fault is the one that is told. -/
def validate (c : Config) : Except ConfigError Unit := do
  if !supportedVersions.contains c.version then
    .error (.unsupportedVersion c.version supportedVersions)
  checkPrefixes c.defaultImagePrefixes
  checkHelper c.loadHelper

end Config

end Redeploy
