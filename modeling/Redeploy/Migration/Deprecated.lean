import Redeploy.Binding.Scope

set_option autoImplicit false

/-! # The deprecated class

Which expressions stand for the class whose calls are migrated. -/

namespace Redeploy.Deprecated

/-- The method whose calls are migrated. -/
def method : String := "build_from_flow"

/-- The class, where the script does not say which one it means. -/
def className : String := "Deployment"

/-- The full paths of the class. -/
def classPaths : List String :=
  ["prefect.deployments.Deployment", "prefect.deployments.deployments.Deployment"]

/-- Whether a path stands for the class. If the head of the path is imported, the import decides; if
    not, the bare name of the class is taken for the class. -/
def isClassPath (s : Scope) (path : String) : Bool :=
  match s.qualify? path with
  | some full => classPaths.contains full
  | none => path == className || classPaths.contains path

/-- Whether an expression stands for the class. -/
def isClass (s : Scope) (receiver : Expr) : Bool :=
  match receiver.dottedPath? with
  | some path => isClassPath s path
  | none => false

end Redeploy.Deprecated
