import Redeploy.Syntax.Kind
import Redeploy.Text.Basic
import Redeploy.Text.Span

set_option autoImplicit false

/-! # Syntax trees

A tree of nodes, each with its kind, its role under its parent, and the part of the script it covers.
Marks of punctuation, comments and line breaks are no nodes; what a leaf says is read off the script
at its span.

`Nested` says of a tree what holds of every tree that is read from a script: the children of a node
lie inside it, in order and without meeting. -/

namespace Redeploy.Syntax

/-- A node of a syntax tree. -/
inductive Tree where
  /-- A node with the nodes directly under it. -/
  | node (kind : Kind) (role : Option Role) (span : Span) (children : List Tree)
  deriving Repr, Inhabited

namespace Tree

/-- The kind of a node. -/
def kind : Tree → Kind
  | node k _ _ _ => k

/-- The role of a node under its parent. -/
def role : Tree → Option Role
  | node _ r _ _ => r

/-- The part of the script that a node covers. -/
def span : Tree → Span
  | node _ _ s _ => s

/-- The nodes directly under a node. -/
def children : Tree → List Tree
  | node _ _ _ cs => cs

/-- The node in a role. -/
def withRole (r : Role) : Tree → Tree
  | node k _ s cs => node k (some r) s cs

/-- What a node says: the script at its span. -/
def text (source : Text) (t : Tree) : String :=
  String.ofList (source.slice t.span.startByte t.span.endByte)

/-- The first child in a role. -/
def child? (t : Tree) (r : Role) : Option Tree :=
  t.children.find? fun c => c.role == some r

/-- The children in a role, in order. -/
def childrenIn (t : Tree) (r : Role) : List Tree :=
  t.children.filter fun c => c.role == some r

/-! ## Well-formed trees -/

/-- Each span starts where the one before it ends, or later, and none goes beyond the two bounds. -/
def InOrder (start stop : Nat) : List Tree → Prop
  | [] => start ≤ stop
  | t :: ts => start ≤ t.span.startByte ∧ t.span.startByte ≤ t.span.endByte ∧
      InOrder t.span.endByte stop ts

mutual

/-- The children of every node of the tree lie inside it, in order and without meeting. -/
def Nested : Tree → Prop
  | node _ _ s cs => InOrder s.startByte s.endByte cs ∧ NestedAll cs

/-- Every tree of a list is `Nested`. -/
def NestedAll : List Tree → Prop
  | [] => True
  | t :: ts => t.Nested ∧ NestedAll ts

end

end Tree

end Redeploy.Syntax
