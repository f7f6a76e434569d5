import Redeploy.Binding.Import
import Redeploy.Expr.Basic
import Redeploy.Table

set_option autoImplicit false

/-! # Module scope

What the names of a script stand for at one point of it: the imports in the order met, and the value
of every name that was last assigned on its own. A later binding of a name replaces an earlier one,
of either kind; a binding whose value cannot be told makes the scope forget the name.

Beside the scope stands the history of bindings that led to it. `lastBinding?` reads the last one
of a name off the history, which is what the scope has to remember of it. -/

namespace Redeploy

/-- The names bound at module level. -/
structure Scope where
  /-- The imports in effect, in the order met. A name may be imported more than once. -/
  imports : List Import
  /-- The values of assigned names, each name once. -/
  assignments : Table Expr
  deriving Repr

namespace Scope

/-- The scope before the first statement. -/
def empty : Scope := ⟨[], []⟩

/-- The imports without those that bind a name. -/
def dropImports (name : String) (imports : List Import) : List Import :=
  imports.filter fun i => i.boundName != name

/-! ## Binding -/

/-- An import binds its name. -/
def recordImport (s : Scope) (i : Import) : Scope :=
  { imports := s.imports ++ [i], assignments := Table.erase i.boundName s.assignments }

/-- An assignment binds a name to a value. -/
def recordAssignment (s : Scope) (name : String) (value : Expr) : Scope :=
  { imports := dropImports name s.imports,
    assignments := Table.insert name value s.assignments }

/-- A name is bound to something that cannot be told. -/
def forget (s : Scope) (name : String) : Scope :=
  { imports := dropImports name s.imports, assignments := Table.erase name s.assignments }

/-- Several names are bound to something that cannot be told. -/
def forgetAll (s : Scope) (names : List String) : Scope :=
  names.foldl forget s

/-! ## Looking up -/

/-- The value that a name was last assigned. -/
def assignment? (s : Scope) (name : String) : Option Expr :=
  Table.get? name s.assignments

/-- The last import that binds a name. -/
def importFor? (s : Scope) (name : String) : Option Import :=
  s.imports.reverse.find? fun i => i.boundName == name

/-- A dotted path with its head replaced by what the head was imported as; `none` if no import binds
    the head. -/
def qualify? (s : Scope) (path : String) : Option String :=
  let (head, rest) := splitHead path
  (s.importFor? head).map fun i =>
    match rest with
    | some rest => i.qualifiedName ++ "." ++ rest
    | none => i.qualifiedName

/-- Whether a required import is in effect already. -/
def satisfies (s : Scope) (r : RequiredImport) : Bool :=
  match s.importFor? r.name with
  | some i => r.isSatisfiedBy i
  | none => false

end Scope

/-! ## Histories -/

/-- One binding of a name. -/
inductive Binding where
  /-- An import. -/
  | imported (i : Import)
  /-- An assignment of a value to a single name. -/
  | assigned (name : String) (value : Expr)
  /-- A binding whose value cannot be told. -/
  | forgotten (name : String)
  deriving Repr

namespace Binding

/-- The name that is bound. -/
def boundName : Binding → String
  | imported i => i.boundName
  | assigned name _ => name
  | forgotten name => name

/-- The scope after one more binding. -/
def record (s : Scope) : Binding → Scope
  | imported i => s.recordImport i
  | assigned name value => s.recordAssignment name value
  | forgotten name => s.forget name

/-- The scope after a history of bindings. -/
def replay (history : List Binding) : Scope :=
  history.foldl record .empty

/-- The last binding of a name in a history. -/
def lastBinding? (name : String) (history : List Binding) : Option Binding :=
  history.reverse.find? fun b => b.boundName == name

end Binding

end Redeploy
