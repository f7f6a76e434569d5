import Redeploy.Expr.Basic
import Redeploy.Expr.Literal
import Redeploy.Syntax.Tree

set_option autoImplicit false

/-! # Expressions of a script

The expression that a node of a syntax tree stands for. Names, attributes, calls and plain string
literals are taken apart; parentheses around one expression are left away; everything else is kept as
it is written. -/

namespace Redeploy.Script

open Syntax (Tree Kind)

/-- The kinds of expressions that can be called or have an attribute taken as they stand. -/
def isAtomicKind : Kind → Bool
  | .identifier | .attributeAccess | .call | .subscript | .string | .concatenatedString | .integer
  | .float | .true_ | .false_ | .none_ | .ellipsis | .list | .tuple | .dictionary | .set
  | .listComprehension | .dictionaryComprehension | .setComprehension | .generatorExpression
  | .parenthesizedExpression => true
  | _ => false

/-- The expression of a node, as it is written. -/
def asWritten (source : Text) (t : Tree) : Expr :=
  .verbatim (t.text source) (isAtomicKind t.kind) (some t.span)

/-- One argument of a call. -/
inductive Argument where
  /-- An argument that is known by its place. -/
  | positional (e : Expr)
  /-- An argument that is known by its name, or a mapping of such arguments. -/
  | keyword (kw : Keyword Expr)
  deriving Repr

namespace Argument

/-- The expression of a positional argument. -/
def positional? : Argument → Option Expr
  | positional e => some e
  | keyword _ => none

/-- The name and value of a keyword argument. -/
def keyword? : Argument → Option (Keyword Expr)
  | positional _ => none
  | keyword kw => some kw

end Argument

/-- The text of the first node in a role. -/
def textIn (source : Text) (r : Syntax.Role) (nodes : List Tree) : Option String :=
  (nodes.find? fun c => c.role == some r).map (Tree.text source)

mutual

/-- The expression of a node. -/
def lower (source : Text) : Tree → Expr
  | .node kind role span children =>
    let written := asWritten source (.node kind role span children)
    match kind with
    | .identifier => .name (Tree.text source (.node kind role span children)) (some span)
    | .attributeAccess =>
      match lowerIn source .object children, textIn source .attributeName children with
      | some value, some attr => .member value attr (some span)
      | _, _ => written
    | .call =>
      match lowerIn source .function children with
      | none => written
      | some func =>
        let arguments := lowerArguments source children
        .call func (arguments.filterMap Argument.positional?)
          (arguments.filterMap Argument.keyword?) (some span)
    | .string =>
      let text := Tree.text source (.node kind role span children)
      match Literal.decode? text with
      | some value => .string value (some text) (some span)
      | none => written
    | .parenthesizedExpression =>
      match children with
      | [inner] =>
        if inner.kind == .yieldExpression || inner.kind == .listSplat then written
        else lower source inner
      | _ => written
    | _ => written

/-- The expression of the first node in a role. -/
def lowerIn (source : Text) (r : Syntax.Role) : List Tree → Option Expr
  | [] => none
  | c :: cs => if c.role == some r then some (lower source c) else lowerIn source r cs

/-- The arguments of a call, from the nodes under it. A generator in the place of the arguments is one
    argument. -/
def lowerArguments (source : Text) : List Tree → List Argument
  | [] => []
  | .node kind role span children :: cs =>
    if role == some .arguments then
      if kind == .argumentList then lowerEach source children
      else [.positional (asWritten source (.node kind role span children))]
    else lowerArguments source cs

/-- The arguments that a list of nodes stands for. -/
def lowerEach (source : Text) : List Tree → List Argument
  | [] => []
  | c :: cs =>
    (match c with
      | .node .keywordArgument _ _ children =>
        match textIn source .name children, lowerIn source .value children with
        | some name, some value => [.keyword ⟨some name, value⟩]
        | _, _ => []
      | .node .dictionarySplat role span children =>
        match children with
        | inner :: _ => [.keyword ⟨none, lower source inner⟩]
        | [] => [.keyword ⟨none, asWritten source (.node .dictionarySplat role span [])⟩]
      | .node .listSplat role span children =>
        [.positional (.verbatim (Tree.text source (.node .listSplat role span children)) false
          (some span))]
      | c => [.positional (lower source c)]) ++ lowerEach source cs

end

end Redeploy.Script
