import Redeploy.Text.Basic
import Redeploy.Text.Span

set_option autoImplicit false

/-! # Expressions

The part of an expression that a migration looks into: names, attributes, calls and string literals.
Everything else is `verbatim`, kept as it is written. An expression made by a migration and not read
from a script has no span. -/

namespace Redeploy

/-- A keyword argument of a call. -/
structure Keyword (α : Type) where
  /-- The name in front of the equals sign; `none` for a mapping that is spread with `**`. -/
  arg : Option String
  /-- The value. -/
  value : α
  deriving Repr

/-- An expression. -/
inductive Expr where
  /-- A variable. -/
  | name (id : String) (span : Option Span)
  /-- An attribute of a value. -/
  | member (value : Expr) (attr : String) (span : Option Span)
  /-- A call with positional and keyword arguments. -/
  | call (func : Expr) (args : List Expr) (keywords : List (Keyword Expr)) (span : Option Span)
  /-- A string literal: the string it denotes, and how it is written if it comes from a script. -/
  | string (value : String) (raw : Option String) (span : Option Span)
  /-- Any other expression as it is written, and whether it can be called or have an attribute taken
      without parentheses around it. -/
  | verbatim (text : String) (atomic : Bool) (span : Option Span)
  deriving Repr, Inhabited

namespace Expr

/-! ## Building expressions -/

/-- The place in the script where an expression stands. -/
def span : Expr → Option Span
  | name _ s => s
  | member _ _ s => s
  | call _ _ _ s => s
  | string _ _ s => s
  | verbatim _ _ s => s

/-- The expression with another span. -/
def withSpan (s : Option Span) : Expr → Expr
  | name id _ => name id s
  | member value attr _ => member value attr s
  | call func args keywords _ => call func args keywords s
  | string value raw _ => string value raw s
  | verbatim text atomic _ => verbatim text atomic s

/-- A string literal that is not in the script. -/
def literal (value : String) : Expr :=
  string value none none

/-- The call of a method with keyword arguments only. -/
def methodCall (receiver : Expr) (method : String) (keywords : List (Keyword Expr)) : Expr :=
  call (member receiver method none) [] keywords none

/-! ## Reading expressions -/

/-- The string that a string literal denotes. -/
def asString? : Expr → Option String
  | string value _ _ => some value
  | _ => none

/-- The name of a variable. -/
def asName? : Expr → Option String
  | name id _ => some id
  | _ => none

/-- The names of a chain of attributes that starts at a variable, joined by points. -/
def dottedPath? : Expr → Option String
  | name id _ => some id
  | member value attr _ => (dottedPath? value).map fun path => path ++ "." ++ attr
  | _ => none

/-- The last name of a variable or attribute. -/
def terminalName? : Expr → Option String
  | name id _ => some id
  | member _ attr _ => some attr
  | _ => none

/-- The value of a keyword argument in a list of them; of a repeated name the last one counts. -/
def lookupKeyword (arg : String) : List (Keyword Expr) → Option Expr
  | [] => none
  | kw :: rest =>
    match lookupKeyword arg rest with
    | some later => some later
    | none => if kw.arg = some arg then some kw.value else none

/-- The value of a keyword argument of a call. -/
def keyword? (e : Expr) (arg : String) : Option Expr :=
  match e with
  | call _ _ keywords _ => lookupKeyword arg keywords
  | _ => none

/-- Whether the expression can be called or have an attribute taken without parentheses. -/
def isAtomic : Expr → Bool
  | verbatim _ atomic _ => atomic
  | _ => true

/-! ## Expressions up to their places -/

mutual

/-- The expression without any spans. -/
def unplaced : Expr → Expr
  | name id _ => name id none
  | member value attr _ => member value.unplaced attr none
  | call func args keywords _ => call func.unplaced (unplacedArgs args) (unplacedKeywords keywords) none
  | string value raw _ => string value raw none
  | verbatim text atomic _ => verbatim text atomic none

/-- Apply `unplaced` to every positional argument. -/
def unplacedArgs : List Expr → List Expr
  | [] => []
  | e :: es => e.unplaced :: unplacedArgs es

/-- Apply `unplaced` to every keyword argument. -/
def unplacedKeywords : List (Keyword Expr) → List (Keyword Expr)
  | [] => []
  | ⟨arg, value⟩ :: rest => ⟨arg, value.unplaced⟩ :: unplacedKeywords rest

end

end Expr

end Redeploy
