import Redeploy.Syntax.Token
import Redeploy.Syntax.Tree

set_option autoImplicit false

/-! # Grammar rules

Rules as data, and the one function that reads tokens by them. Choice is ordered: the second rule of
an `alt` is tried only where the first one fails, and `many` takes as much as it can. A rule builds
nodes while it reads. `node` puts what its rule builds under a new node; `wrap` puts the node built
last under a new one that goes on to the right, which is how operators that group to the left are
read; and `become` lets a node choose its kind while its inside is being read.

A node covers the tokens that its rule reads, and a rule that reads nothing makes no node. So the
nodes of a tree are nested and in order whatever the rules are. -/

namespace Redeploy.Syntax

/-! ## Rules -/

/-- A test of one token. -/
inductive Terminal where
  /-- One of certain words. -/
  | word (ws : List String)
  /-- A word that is not one of some others. -/
  | wordExcept (ws : List String)
  /-- One of certain symbols. -/
  | symbol (ss : List String)
  /-- Any token of a kind. -/
  | kind (k : TokenKind)
  deriving Repr

namespace Terminal

/-- Whether a token passes the test. -/
def accepts (t : Terminal) (token : Token) : Bool :=
  match t with
  | word ws => token.kind == .word && ws.any fun w => token.text == w.toList
  | wordExcept ws => token.kind == .word && !ws.any fun w => token.text == w.toList
  | symbol ss => token.kind == .symbol && ss.any fun s => token.text == s.toList
  | kind k => token.kind == k

end Terminal

/-- A rule over the names `N` of other rules. -/
inductive Rule (N : Type) where
  /-- Reads nothing. -/
  | empty
  /-- Reads one token. -/
  | token (t : Terminal)
  /-- Reads one thing and then another. -/
  | seq (a b : Rule N)
  /-- Reads the first thing, or the second if the first cannot be read. -/
  | alt (a b : Rule N)
  /-- Reads a thing as often as it can. -/
  | many (a : Rule N)
  /-- Reads what another rule says. -/
  | ref (n : N)
  /-- Builds a node over what it reads. -/
  | node (k : Kind) (a : Rule N)
  /-- Builds a node over the node built last, which takes a role, and what it reads. -/
  | wrap (k : Kind) (r : Option Role) (a : Rule N)
  /-- Sets the kind of the node that is being built. -/
  | become (k : Kind)
  /-- Gives a role to the nodes that it builds. -/
  | role (r : Role) (a : Rule N)
  /-- Reads a thing only if the nodes it builds are of certain kinds. -/
  | only (ks : List Kind) (a : Rule N)
  /-- Reads nothing, and only before a token of some kind. -/
  | ahead (t : Terminal)
  /-- Reads nothing, and not before a token of some kind. -/
  | notAhead (t : Terminal)

/-! ## Reading by rules -/

/-- How far the reading has come. -/
structure Reading where
  /-- The tokens still to be read. -/
  rest : List Token
  /-- How many tokens have been read. -/
  count : Nat
  /-- The token read last. -/
  prev : Token
  /-- The kind of the node that is being built. -/
  kind : Kind
  /-- The nodes built under it, the last one first. -/
  built : List Tree
  /-- The furthest token that a rule has stumbled over. -/
  reach : Nat
  deriving Repr

namespace Reading

/-- The failure to read the next token. -/
def stuck (s : Reading) : Except Nat Reading :=
  .error (max s.reach s.count)

/-- Read one token. -/
def readToken (s : Reading) (t : Terminal) : Except Nat Reading :=
  match s.rest with
  | token :: rest =>
    if t.accepts token then .ok { s with rest := rest, count := s.count + 1, prev := token }
    else s.stuck
  | [] => s.stuck

/-- Look at the next token without reading it. -/
def look (s : Reading) (t : Terminal) (expected : Bool) : Except Nat Reading :=
  match s.rest with
  | token :: _ => if t.accepts token == expected then .ok s else s.stuck
  | [] => if expected then s.stuck else .ok s

/-- The same place with nodes of another parent. -/
def under (s : Reading) (kind : Kind) (built : List Tree) : Reading :=
  { s with kind := kind, built := built }

/-- Go on from an inner reading with one node more. -/
def withNode (s inner : Reading) (node : Tree) (built : List Tree) : Reading :=
  { inner with kind := s.kind, built := node :: built }

end Reading

/-- Read tokens by a rule. The failure is the number of the furthest token that could not be read.
    `depth` bounds how deep rules are nested in each other while reading. -/
def Rule.read {N : Type} (g : N → Rule N) : (depth : Nat) → Rule N → Reading → Except Nat Reading
  | 0, _, s => s.stuck
  | depth + 1, rule, s =>
    match rule with
    | .empty => .ok s
    | .token t => s.readToken t
    | .seq a b =>
      match read g depth a s with
      | .ok s' => read g depth b s'
      | .error n => .error n
    | .alt a b =>
      match read g depth a s with
      | .ok s' => .ok s'
      | .error n => read g depth b { s with reach := max s.reach n }
    | .many a =>
      match read g depth a s with
      | .ok s' => if s.count < s'.count then read g depth (.many a) s' else .ok s
      | .error n => .ok { s with reach := max s.reach n }
    | .ref n => read g depth (g n) s
    | .node k a =>
      match s.rest with
      | [] => s.stuck
      | first :: _ =>
        match read g depth a (s.under k []) with
        | .error n => .error n
        | .ok s' =>
          if s.count < s'.count then
            .ok (s.withNode s'
              (.node s'.kind none (first.span.upTo s'.prev.span) s'.built.reverse) s.built)
          else s.stuck
    | .wrap k r a =>
      match s.built with
      | [] => s.stuck
      | head :: before =>
        let first := match r with
          | some r => head.withRole r
          | none => head
        match read g depth a (s.under k [first]) with
        | .error n => .error n
        | .ok s' =>
          if s.count < s'.count then
            .ok (s.withNode s'
              (.node s'.kind none (head.span.upTo s'.prev.span) s'.built.reverse) before)
          else s.stuck
    | .become k => .ok { s with kind := k }
    | .role r a =>
      match read g depth a { s with built := [] } with
      | .error n => .error n
      | .ok s' => .ok { s' with built := s'.built.map (Tree.withRole r) ++ s.built }
    | .only ks a =>
      match read g depth a { s with built := [] } with
      | .error n => .error n
      | .ok s' =>
        if s'.built.all fun t => ks.contains t.kind then .ok { s' with built := s'.built ++ s.built }
        else .error (max s'.reach s.count)
    | .ahead t => s.look t true
    | .notAhead t => s.look t false

end Redeploy.Syntax
