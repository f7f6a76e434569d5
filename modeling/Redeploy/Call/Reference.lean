import Redeploy.Block.Helper

set_option autoImplicit false

/-! # Block references and entrypoints

How a call refers to a block, and where the entrypoint of a flow is. -/

namespace Redeploy

/-- The block that an argument of a call stands for. -/
inductive BlockReference where
  /-- A stored block, given by its slug. -/
  | slug (slug : String) (span : Option Span)
  /-- A block that the script has at hand. -/
  | bound (e : Expr)
  deriving Repr

namespace BlockReference

/-- The reference that an expression makes: a string literal is a slug. -/
def ofExpr (e : Expr) : BlockReference :=
  match e with
  | .string value _ span => slug value span
  | e => bound e

/-- The slug of a stored block. -/
def slug? : BlockReference → Option String
  | slug s _ => some s
  | bound _ => none

/-- The expression that migrated code uses for the block. -/
def toExpr (helper : LoadHelper) : BlockReference → Expr
  | slug s span => (helper.loadCall s).withSpan span
  | bound e => e

end BlockReference

/-- The infrastructure of a call. -/
structure Environment where
  /-- The block. -/
  reference : BlockReference
  /-- The image that the block is configured with, if that can be told. -/
  image : Option String
  deriving Repr

/-- Where the text of an entrypoint comes from. -/
inductive EntrypointSource where
  /-- The entrypoint and the path of the call, joined. -/
  | joinedWithPath
  /-- The entrypoint of the call. -/
  | explicit
  /-- The script and the name of the flow. -/
  | default
  deriving DecidableEq, Repr

namespace EntrypointSource

/-- The name of the source in data. -/
def label : EntrypointSource → String
  | joinedWithPath => "joined_with_path"
  | explicit => "explicit"
  | default => "default"

end EntrypointSource

/-- Where a flow is found in the code that is fetched. -/
structure Entrypoint where
  /-- The entrypoint. -/
  value : Expr
  /-- Where it comes from. -/
  source : EntrypointSource
  deriving Repr

/-- A path that continues another one. An absolute path stands on its own; in front of a relative one
    comes the other path, with a slash between them unless it is empty or ends in one. -/
def joinPath (base path : String) : String :=
  if path.toList.head? = some '/' ∨ base.toList = [] then path
  else if base.toList.getLast? = some '/' then base ++ path
  else base ++ "/" ++ path

end Redeploy
