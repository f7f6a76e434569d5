import Redeploy.Syntax.Lexeme
import Redeploy.Text.Span

set_option autoImplicit false

/-! # Tokens

The marks of a script with their places, and the layout of its lines as marks of their own: the end
of a logical line, and the start and end of an indented block. Layout marks have no extent; they
stand where the mark before them ends.

A line break counts unless it is within brackets or follows an operator that lacks its second
operand. A block starts where a line that ends in a colon is followed by a deeper one; a deeper line
anywhere else is an ordinary line. -/

namespace Redeploy.Syntax

/-! ## Places -/

/-- A point of a script. -/
structure Position where
  /-- Byte offset. -/
  byte : Nat
  /-- Line, counted from 1. -/
  line : Nat
  /-- Column in bytes, counted from 0. -/
  col : Nat
  deriving DecidableEq, Repr

namespace Position

/-- The start of a script. -/
def start : Position := ⟨0, 1, 0⟩

/-- The point behind a character. -/
def after (p : Position) (c : Char) : Position :=
  if c = '\n' then ⟨p.byte + c.utf8Size, p.line + 1, 0⟩
  else ⟨p.byte + c.utf8Size, p.line, p.col + c.utf8Size⟩

/-- The point behind a text. -/
def afterText (p : Position) (t : Text) : Position :=
  t.foldl after p

/-- The span between two points. -/
def span (p q : Position) : Span :=
  ⟨p.byte, q.byte, p.line, p.col, q.line, q.col⟩

end Position

/-- A lexeme and its place. -/
structure Placed where
  /-- The lexeme. -/
  lexeme : Lexeme
  /-- Its place. -/
  span : Span
  deriving DecidableEq, Repr, Inhabited

/-- Lexemes with their places, from a point on. -/
def placeFrom (p : Position) : List Lexeme → List Placed
  | [] => []
  | l :: ls => ⟨l, p.span (p.afterText l.text)⟩ :: placeFrom (p.afterText l.text) ls

/-- The lexemes of a script with their places. -/
def placedLexemes (source : Text) : List Placed :=
  placeFrom .start (scan source)

/-- A mark that the grammar knows, and its place. -/
structure Token where
  /-- What it is. -/
  kind : TokenKind
  /-- How it is written. -/
  text : Text
  /-- Its place. -/
  span : Span
  deriving DecidableEq, Repr, Inhabited

/-! ## Layout -/

namespace Token

/-- Whether the token is a certain symbol. -/
def isSymbol (t : Token) (symbol : String) : Bool :=
  t.kind == .symbol && t.text == symbol.toList

/-- Whether the token opens brackets. -/
def opens (t : Token) : Bool :=
  t.kind == .interpolationStart || t.isSymbol "(" || t.isSymbol "[" || t.isSymbol "\x7b"

/-- Whether the token closes brackets. -/
def closes (t : Token) : Bool :=
  t.kind == .interpolationEnd || t.isSymbol ")" || t.isSymbol "]" || t.isSymbol "\x7d"

/-- The operators that cannot stand at the end of a logical line. The star is not among them, since
    it can stand for all names of a module. -/
def operators : List String :=
  ["**=", "//=", ">>=", "<<=", "**", "//", "<<", ">>", "<=", ">=", "==", "!=", "<>", "->", "+=",
    "-=", "*=", "/=", "@=", "%=", "&=", "^=", "|=", ":=", "+", "-", "/", "%", "@", "&", "|", "^",
    "~", "<", ">", ".", "="]

/-- Whether the token asks for an operand to follow. -/
def lacksOperand (t : Token) : Bool :=
  t.kind == .symbol && operators.any fun o => t.text == o.toList

/-- A layout mark behind a token. -/
def layoutAfter (t : Token) (kind : TokenKind) : Token :=
  ⟨kind, [], { t.span with
    startByte := t.span.endByte, startLine := t.span.endLine, startCol := t.span.endCol }⟩

end Token

/-- What the layout of a line depends on. -/
structure LineState where
  /-- How many brackets are open. -/
  depth : Nat
  /-- The indentations of the open blocks, the innermost first. -/
  blocks : List Nat
  /-- The token before. -/
  prev : Option Token
  /-- The indentation read so far, if a line has begun and none of its tokens has been read. -/
  indentation : Option Nat
  deriving Repr

namespace LineState

/-- The start of a script. -/
def start : LineState := ⟨0, [], none, some 0⟩

/-- The indentation after one more blank character. -/
def widen (n : Nat) (c : Char) : Nat :=
  if c = ' ' then n + 1
  else if c = '\t' then n + 8
  else if c.toNat = 12 ∨ c.toNat = 13 then 0
  else n

/-- The blocks that go on at an indentation. -/
def goingOn (indentation : Nat) (blocks : List Nat) : List Nat :=
  blocks.dropWhile fun b => indentation < b

/-- The marks between a token and the next line, which starts at an indentation, and the blocks that
    are open in that line. -/
def lineEnd (prev : Token) (blocks : List Nat) (indentation : Nat) : List Token × List Nat :=
  if prev.lacksOperand then ([], blocks)
  else if prev.isSymbol ":" && blocks.headD 0 < indentation then
    ([prev.layoutAfter .indent], indentation :: blocks)
  else
    let rest := goingOn indentation blocks
    (prev.layoutAfter .newline ::
      List.replicate (blocks.length - rest.length) (prev.layoutAfter .dedent), rest)

/-- The marks in front of the next token, and the state in which it is read. -/
def beforeToken (s : LineState) : List Token × LineState :=
  match s.prev, s.indentation with
  | some prev, some n =>
    let (marks, blocks) := lineEnd prev s.blocks n
    (marks, { s with blocks := blocks, indentation := none })
  | _, _ => ([], { s with indentation := none })

/-- The state behind a token. -/
def afterToken (s : LineState) (t : Token) : LineState :=
  { s with
    depth := if t.opens then s.depth + 1 else if t.closes then s.depth - 1 else s.depth
    prev := some t }

/-- The state behind a lexeme that is no token. -/
def afterSilent (s : LineState) (l : Lexeme) : LineState :=
  match l.kind with
  | .lineBreak => if s.depth = 0 then { s with indentation := some 0 } else s
  | .blank => { s with indentation := s.indentation.map fun n => l.text.foldl widen n }
  | _ => s

end LineState

/-- The tokens of placed lexemes, with the layout of the lines. -/
def layout (s : LineState) : List Placed → List Token
  | [] =>
    match s.prev with
    | some prev => (LineState.lineEnd prev s.blocks 0).1
    | none => []
  | p :: rest =>
    match p.lexeme.kind with
    | .token kind =>
      let token : Token := ⟨kind, p.lexeme.text, p.span⟩
      let (marks, s') := s.beforeToken
      marks ++ token :: layout (s'.afterToken token) rest
    | _ => layout (s.afterSilent p.lexeme) rest

/-- The tokens of placed lexemes. -/
def tokensOf (lexemes : List Placed) : List Token :=
  layout .start lexemes

end Redeploy.Syntax
