import Redeploy.Binding.Import
import Redeploy.Expr.Basic

set_option autoImplicit false

/-! # The load helper

The class method that migrated code calls to load a block by its slug. -/

namespace Redeploy

/-- A class with a method that takes the slug of a block. -/
structure LoadHelper where
  /-- The module that the class is imported from. -/
  module : String
  /-- The class. -/
  name : String
  /-- The method. -/
  method : String
  deriving DecidableEq, Repr

namespace LoadHelper

/-- The helper that is used if no other one is configured. -/
def standard : LoadHelper := ⟨"prefect.blocks.core", "Block", "load"⟩

/-- The call that loads a block. -/
def loadCall (h : LoadHelper) (slug : String) : Expr :=
  .call (.member (.name h.name none) h.method none) [.literal slug] [] none

/-- The import that the call needs. -/
def requiredImport (h : LoadHelper) : RequiredImport := ⟨h.module, h.name⟩

/-- The full path of the class. -/
def qualifiedName (h : LoadHelper) : String :=
  h.module ++ "." ++ h.name

end LoadHelper

end Redeploy
