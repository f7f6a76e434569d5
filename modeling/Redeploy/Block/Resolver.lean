import Redeploy.Binding.Scope
import Redeploy.Block.Document
import Redeploy.Error

set_option autoImplicit false

/-! # Resolvers

How a migration learns what is stored of a block. A resolver reads and changes nothing, so it is a
pair of functions. -/

namespace Redeploy

/-- A source of block documents. -/
structure Resolver where
  /-- The document stored under a slug; `none` if there is no such block, and an error if the store
      itself fails. -/
  load : String → Except MigrateError (Option Document)
  /-- The document of a block that an expression of the script stands for; `none` if that cannot be
      told without running the script. -/
  resolveBound : Expr → Scope → Option Document

namespace Resolver

/-- The same source with no knowledge of expressions. -/
def lookupOnly (r : Resolver) : Resolver :=
  { r with resolveBound := fun _ _ => none }

/-- A store that cannot be reached. -/
def offline : Resolver where
  load slug := .error (.store ("block store offline while loading " ++ slug))
  resolveBound _ _ := none

end Resolver

end Redeploy
