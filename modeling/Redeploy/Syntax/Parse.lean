import Redeploy.Syntax.Grammar

set_option autoImplicit false

/-! # Reading scripts

The tree of a script. Two statements that share a line without a semicolon between them are read as
if a line break stood there, where that is the cheapest way to make sense of the line; any other
fault refuses the script. Where a fault is told to be depends on the cheapest way to mend it: leaving
out the token that cannot be read or the one before it, or adding a closing parenthesis. -/

namespace Redeploy.Syntax

/-- Why a text is no script. -/
structure Fault where
  /-- What is missing; `none` if something is there that should not be. -/
  missing : Option String
  /-- The line of the fault. -/
  line : Nat
  /-- Its column. -/
  col : Nat
  deriving DecidableEq, Repr

namespace Fault

/-- The wording of a fault. -/
def message (f : Fault) : String :=
  (match f.missing with
    | some what => "missing " ++ what
    | none => "invalid syntax") ++
    " at line " ++ toString f.line ++ ", column " ++ toString f.col

/-- A fault where a token stands. -/
def at_ (t : Token) : Fault := ⟨none, t.span.startLine, t.span.startCol⟩

end Fault

/-! ## Tokens to trees -/

/-- A bound for the nesting of rules while tokens are read. -/
def readingDepth (ts : List Token) : Nat :=
  400 * (ts.length + 2)

/-- The statements that tokens make up, or the number of the furthest token that cannot be read. -/
def readTokens (ts : List Token) : Except Nat (List Tree) :=
  let start : Reading := ⟨ts, 0, default, .module, [], 0⟩
  match Rule.read Grammar.rule (readingDepth ts) (.many (.ref .statement)) start with
  | .ok s => if s.rest.isEmpty then .ok s.built.reverse else .error (max s.reach s.count)
  | .error n => .error n

/-! ## Mending -/

namespace Token

/-- Whether the token is written in the script. -/
def isWritten (t : Token) : Bool :=
  t.kind != .newline && t.kind != .indent && t.kind != .dedent

end Token

/-- The lexemes without the one of a token. -/
def withoutToken (t : Token) (lexemes : List Placed) : List Placed :=
  lexemes.filter fun p => !(p.lexeme.kind == .token t.kind && p.span == t.span)

/-- The lexemes with one more behind the one of a token. -/
def withBehind (t : Token) (kind : TokenKind) (text : Text) (lexemes : List Placed) : List Placed :=
  lexemes.flatMap fun p =>
    if p.lexeme.kind == .token t.kind && p.span == t.span then
      [p, ⟨⟨.token kind, text⟩, (t.layoutAfter kind).span⟩]
    else [p]

/-- A way to mend a script. -/
structure Mending where
  /-- How much it changes. -/
  cost : Nat
  /-- The lexemes of the mended script. -/
  lexemes : List Placed
  /-- The number of the first token that has to be read for the mending to be of use. -/
  threshold : Nat
  /-- The fault that is told; `none` for a line break, which is added silently. -/
  fault : Option Fault

namespace Mending

/-- Whether the mended script can be read to its end. -/
def isComplete (m : Mending) : Bool :=
  (readTokens (tokensOf m.lexemes)).toOption.isSome

/-- Whether the mended script can be read further than before. -/
def isProgress (m : Mending) : Bool :=
  match readTokens (tokensOf m.lexemes) with
  | .ok _ => true
  | .error n => m.threshold < n

/-- The cost of adding a token. -/
def insertionCost : Nat := 610

/-- The cost of leaving a token out. -/
def deletionCost (t : Token) : Nat := 600 + Text.size t.text

/-- Leave a token out. -/
def deletion (lexemes : List Placed) (ts : List Token) (n : Nat) : List Mending :=
  match ts[n]? with
  | some t =>
    if t.isWritten then [⟨deletionCost t, withoutToken t lexemes, n, some (Fault.at_ t)⟩] else []
  | none => []

/-- Add a line break or a closing parenthesis in front of a token. -/
def insertions (lexemes : List Placed) (ts : List Token) (n : Nat) : List Mending :=
  match (ts.take n).reverse.find? Token.isWritten with
  | some t =>
    [⟨insertionCost, withBehind t .newline [] lexemes, n + 1, none⟩,
      ⟨insertionCost, withBehind t .symbol [')'] lexemes, n + 1,
        some ⟨some ")", t.span.endLine, t.span.endCol⟩⟩]
  | none => []

/-- The ways to mend a script whose token of a number cannot be read. -/
def all (lexemes : List Placed) (ts : List Token) (n : Nat) : List Mending :=
  insertions lexemes ts n ++ deletion lexemes ts n ++
    if n = 0 then [] else deletion lexemes ts (n - 1)

/-- The cheapest of several mendings, and the first of those that cost the same. -/
def cheapest : List Mending → Option Mending
  | [] => none
  | m :: ms =>
    match cheapest ms with
    | some best => if m.cost ≤ best.cost then some m else some best
    | none => some m

/-- The mending to choose: the cheapest one after which the script can be read, or else the cheapest
    one that makes some progress. -/
def choose (ms : List Mending) : Option Mending :=
  (cheapest (ms.filter isComplete)).or (cheapest (ms.filter isProgress))

end Mending

/-- The fault of a script whose token of a number cannot be read. -/
def faultAt (ts : List Token) (n : Nat) : Fault :=
  match ts[n]?.or ts.getLast? with
  | some t => Fault.at_ t
  | none => ⟨none, 1, 0⟩

/-- The statements of placed lexemes, with line breaks added where that is the cheapest mending. -/
def statementsOf : (steps : Nat) → List Placed → Except Fault (List Tree)
  | 0, lexemes => .error (faultAt (tokensOf lexemes) 0)
  | steps + 1, lexemes =>
    let ts := tokensOf lexemes
    match readTokens ts with
    | .ok statements => .ok statements
    | .error n =>
      match Mending.choose (Mending.all lexemes ts n) with
      | none => .error (faultAt ts n)
      | some m =>
        match m.fault with
        | some fault => .error fault
        | none => statementsOf steps m.lexemes

/-- The tree of a script. -/
def parse (source : Text) : Except Fault Tree :=
  let lexemes := placedLexemes source
  (statementsOf (lexemes.length + 1) lexemes).map fun statements =>
    .node .module none (Position.start.span (Position.start.afterText source)) statements

end Redeploy.Syntax
