import Redeploy.Expr.Basic
import Redeploy.Expr.Literal

set_option autoImplicit false

/-! # Writing expressions

The text of an expression on one line: what comes from the script as it is written there, the rest
in one fixed layout. Parentheses are added in one place only, around a receiver that cannot do
without them. -/

namespace Redeploy.Expr

/-- A receiver, in parentheses if it needs them. -/
def guardReceiver (atomic : Bool) (text : String) : String :=
  if atomic then text else "(" ++ text ++ ")"

mutual

/-- The text of an expression. -/
def render : Expr → String
  | .name id _ => id
  | .member value attr _ => guardReceiver value.isAtomic value.render ++ "." ++ attr
  | .call func args keywords _ =>
    guardReceiver func.isAtomic func.render ++ "(" ++
      ", ".intercalate (renderArgs args ++ renderKeywords keywords) ++ ")"
  | .string value raw _ =>
    match raw with
    | some text => text
    | none => Literal.quote value
  | .verbatim text _ _ => text

/-- The texts of positional arguments. -/
def renderArgs : List Expr → List String
  | [] => []
  | e :: es => e.render :: renderArgs es

/-- The texts of keyword arguments. -/
def renderKeywords : List (Keyword Expr) → List String
  | [] => []
  | ⟨arg, value⟩ :: rest =>
    (match arg with
      | some keyword => keyword ++ "=" ++ value.render
      | none => "**" ++ value.render) :: renderKeywords rest

end

end Redeploy.Expr
