import Redeploy.Yaml.Scalar.Plain
import Redeploy.Yaml.Scalar.Quoted
import Redeploy.Yaml.Scalar.Block
import Redeploy.Yaml.Tag

set_option autoImplicit false

/-! # Tokens

The marks of a YAML text in order, with the indentation of blocks turned into tokens that open and
close them. What stands before a colon is the key of a mapping, and only the colon shows it: a token
that might be a key is remembered with its place, and if a colon follows on the same line the tokens
that open the mapping and announce the key are put in before it. -/

namespace Redeploy.Yaml

/-! ## Tokens -/

/-- How a scalar is written. -/
inductive Style where
  /-- Without quotes. -/
  | plain
  /-- Between single or double quotes. -/
  | quoted
  /-- As lines that are kept. -/
  | literal
  /-- As lines that are folded. -/
  | folded
  deriving DecidableEq, Repr

/-- A mark of a YAML text. -/
inductive Token where
  /-- A directive. -/
  | directive (d : Directive)
  /-- The mark that starts a document. -/
  | documentStart
  /-- The mark that ends a document. -/
  | documentEnd
  /-- The start of a sequence by indentation. -/
  | blockSequence
  /-- The start of a mapping by indentation. -/
  | blockMapping
  /-- The end of a sequence or mapping by indentation. -/
  | blockEnd
  /-- An opening bracket. -/
  | openBracket
  /-- A closing bracket. -/
  | closeBracket
  /-- An opening brace. -/
  | openBrace
  /-- A closing brace. -/
  | closeBrace
  /-- The dash before an item. -/
  | dash
  /-- A comma between items. -/
  | comma
  /-- What follows is a key. -/
  | key
  /-- What follows is a value. -/
  | value
  /-- A reference to an anchored node. -/
  | reference (name : Text)
  /-- An anchor. -/
  | anchor (name : Text)
  /-- A tag. -/
  | tag (name : TagName)
  /-- A scalar. -/
  | scalar (text : Text) (style : Style)
  deriving DecidableEq, Repr

/-! ## Layout -/

/-- A token that is a key if a colon follows. -/
structure PossibleKey where
  /-- Whether it can be nothing else, since it stands where the entries of a block mapping do. -/
  required : Bool
  /-- How many tokens stand before it. -/
  position : Nat
  /-- Its line. -/
  line : Nat
  /-- Its column. -/
  column : Nat
  deriving DecidableEq, Repr

/-- The most characters that may lie between the start of a key and its colon. -/
def maxKeyLength : Nat := 1024

/-- Whether a key that is to be on one line may still have its colon at a place. -/
def PossibleKey.reaches (k : PossibleKey) (g : Glyph) : Bool :=
  k.line == g.line && g.column ≤ k.column + maxKeyLength

/-- The tokens read so far and what the next ones depend on. -/
structure Layout where
  /-- The tokens, the last one first. -/
  tokens : List Token
  /-- How many they are. -/
  count : Nat
  /-- The columns of the open blocks, the innermost first. -/
  indents : List Nat
  /-- Whether the next token may be a key. -/
  keyAllowed : Bool
  /-- The possible key of the innermost brackets, or of the block if none are open. -/
  key : Option PossibleKey
  /-- The possible keys outside of every pair of open brackets, the innermost first. -/
  outerKeys : List (Option PossibleKey)

namespace Layout

/-- The layout at the start of a text. -/
def start : Layout := ⟨[], 0, [], true, none, []⟩

/-- Whether brackets are open. -/
def inFlow (s : Layout) : Bool :=
  !s.outerKeys.isEmpty

/-- The least column of what belongs to the innermost block. -/
def inner (s : Layout) : Nat :=
  match s.indents with
  | [] => 0
  | n :: _ => n + 1

/-- Whether a block has to be opened for an entry at a column. -/
def isDeeper (s : Layout) (column : Nat) : Bool :=
  s.inner ≤ column

/-! ### Tokens -/

/-- Add a token. -/
def push (s : Layout) (t : Token) : Layout :=
  { s with tokens := t :: s.tokens, count := s.count + 1 }

/-- Put a token in so that it has a number of tokens before it. -/
def insertAt (s : Layout) (position : Nat) (t : Token) : Layout :=
  let behind := s.count - position
  { s with tokens := s.tokens.take behind ++ t :: s.tokens.drop behind, count := s.count + 1 }

/-! ### Blocks -/

/-- Open a block for an entry at a column, unless its block is open. Brackets have no blocks. -/
def openBlock (s : Layout) (column position : Nat) (t : Token) : Layout :=
  if !s.inFlow && s.isDeeper column then
    { s.insertAt position t with indents := column :: s.indents }
  else s

/-- Close the blocks that lie deeper than a column. -/
def closeDeeper (column : Nat) (tokens : List Token) (count : Nat) :
    List Nat → List Token × Nat × List Nat
  | [] => (tokens, count, [])
  | n :: outer =>
    if n > column then closeDeeper column (.blockEnd :: tokens) (count + 1) outer
    else (tokens, count, n :: outer)

/-- Close the blocks that an entry at a column does not belong to. -/
def closeTo (s : Layout) (column : Nat) : Layout :=
  if s.inFlow then s
  else
    let (tokens, count, indents) := closeDeeper column s.tokens s.count s.indents
    { s with tokens := tokens, count := count, indents := indents }

/-- Close all blocks. -/
def closeAll (s : Layout) : Layout :=
  if s.inFlow then s
  else
    { s with
      tokens := List.replicate s.indents.length .blockEnd ++ s.tokens
      count := s.count + s.indents.length
      indents := [] }

/-! ### Possible keys -/

/-- Take the possible key for no key, if it need not be one. -/
def dropKey (s : Layout) : Option Layout :=
  match s.key with
  | some k => if k.required then none else some { s with key := none }
  | none => some s

/-- What is left of a possible key at a place; `none` if the key cannot be given up. -/
def reachingKey (g : Glyph) : Option PossibleKey → Option (Option PossibleKey)
  | some k => if k.reaches g then some (some k) else if k.required then none else some none
  | none => some none

/-- Drop the possible keys that are too far away from a place to have their colon there. -/
def dropDistantKeys (s : Layout) (g : Glyph) : Option Layout := do
  let key ← reachingKey g s.key
  let outerKeys ← s.outerKeys.mapM (reachingKey g)
  return { s with key := key, outerKeys := outerKeys }

/-- Remember the token that comes next as a possible key. -/
def noteKey (s : Layout) (g : Glyph) : Option Layout := do
  if s.keyAllowed then
    let s ← s.dropKey
    return { s with
      key := some ⟨!s.inFlow && s.indents.head? == some g.column, s.count, g.line, g.column⟩ }
  else return s

/-- Allow or forbid that the next token is a key. -/
def allowKey (s : Layout) (allowed : Bool) : Layout :=
  { s with keyAllowed := allowed }

/-! ### Single marks -/

/-- An opening bracket or brace. -/
def openFlow (s : Layout) (g : Glyph) (t : Token) : Option Layout := do
  let s ← s.noteKey g
  return ({ s with key := none, outerKeys := s.key :: s.outerKeys }.allowKey true).push t

/-- A closing bracket or brace. -/
def closeFlow (s : Layout) (t : Token) : Option Layout := do
  let s ← s.dropKey
  let s := match s.outerKeys with
    | key :: outer => { s with key := key, outerKeys := outer }
    | [] => s
  return (s.allowKey false).push t

/-- A mark that entries of a block start with: a dash or a question mark. -/
def startEntry (s : Layout) (g : Glyph) (opening t : Token) (allowed : Bool) : Option Layout := do
  if !s.inFlow && !s.keyAllowed then none
  let s ← (s.openBlock g.column s.count opening).dropKey
  return (s.allowKey allowed).push t

/-- A colon, behind a key or on its own. -/
def startValue (s : Layout) (g : Glyph) : Option Layout :=
  match s.key with
  | some k =>
    let s := (s.insertAt k.position .key).openBlock k.column k.position .blockMapping
    some (({ s with key := none }.allowKey false).push .value)
  | none =>
    if !s.inFlow && !s.keyAllowed then none
    else
      let s := s.openBlock g.column s.count .blockMapping
      some ((s.allowKey (!s.inFlow)).push .value)

/-- A mark that starts or ends a document, or a directive: nothing goes on across it. -/
def boundary (s : Layout) (t : Token) : Option Layout := do
  let s ← s.closeAll.dropKey
  return (s.allowKey false).push t

/-- A token that may be a key. -/
def node (s : Layout) (g : Glyph) (t : Token) : Option Layout := do
  let s ← s.noteKey g
  return (s.allowKey false).push t

/-! ### Reading -/

/-- Read blanks, comments and line breaks up to the next token. A tab counts as blank space only
    where it cannot be taken for indentation. -/
def skipGap (comment : Bool) (s : Layout) : List Glyph → Layout × List Glyph
  | [] => (s, [])
  | g :: rest =>
    if isBreak g.char then skipGap false (if s.inFlow then s else s.allowKey true) rest
    else if comment || g.char == ' ' || (g.char == '\t' && (s.inFlow || !s.keyAllowed)) then
      skipGap comment s rest
    else if g.char == '#' then skipGap true s rest
    else (s, g :: rest)

/-- Read a scalar that is written as lines. -/
def readBlock (s : Layout) (style : Style) (gs : List Glyph) : Option (Layout × List Glyph) := do
  let (text, rest) ← Block.read? (style == .literal) s.indents s.inner gs
  let s ← s.dropKey
  return ((s.allowKey true).push (.scalar text style), rest)

/-- Read a scalar without quotes. A line that it does not fill may start with a key. -/
def readPlain (s : Layout) (g : Glyph) (gs : List Glyph) : Option (Layout × List Glyph) := do
  if !Plain.startsHere s.inFlow gs then none
  let (text, gap, rest) ← Plain.read? s.inner s.inFlow gs
  let s ← s.node g (.scalar text .plain)
  return (if gap.isBreaks then s.allowKey true else s, rest)

/-- Read the token that starts with a glyph. -/
def readToken (s : Layout) (g : Glyph) (rest : List Glyph) : Option (Layout × List Glyph) := do
  let c := g.char
  if g.column == 0 && c == '%' then
    let (d, rest) ← readDirective rest
    return (← s.boundary (.directive d), rest)
  else if atMarker '-' (g :: rest) then return (← s.boundary .documentStart, rest.drop 2)
  else if atMarker '.' (g :: rest) then return (← s.boundary .documentEnd, rest.drop 2)
  else if c == '[' then return (← s.openFlow g .openBracket, rest)
  else if c == '\x7b' then return (← s.openFlow g .openBrace, rest)
  else if c == ']' then return (← s.closeFlow .closeBracket, rest)
  else if c == '\x7d' then return (← s.closeFlow .closeBrace, rest)
  else if c == ',' then return (((← s.dropKey).allowKey true).push .comma, rest)
  else if c == '-' && atGap rest then return (← s.startEntry g .blockSequence .dash true, rest)
  else if c == '?' && (s.inFlow || atGap rest) then
    return (← s.startEntry g .blockMapping .key (!s.inFlow), rest)
  else if c == ':' && (s.inFlow || atGap rest) then return (← s.startValue g, rest)
  else if c == '*' then
    let (name, rest) ← readName rest
    return (← s.node g (.reference name), rest)
  else if c == '&' then
    let (name, rest) ← readName rest
    return (← s.node g (.anchor name), rest)
  else if c == '!' then
    let (name, rest) ← readTag s.inFlow (g :: rest)
    return (← s.node g (.tag name), rest)
  else if c == '|' && !s.inFlow then s.readBlock .literal rest
  else if c == '>' && !s.inFlow then s.readBlock .folded rest
  else if c == '\'' then
    let (text, rest) ← Quoted.single? rest
    return (← s.node g (.scalar text .quoted), rest)
  else if c == '"' then
    let (text, rest) ← Quoted.double? rest
    return (← s.node g (.scalar text .quoted), rest)
  else s.readPlain g (g :: rest)

/-- Read the tokens that are left. Every step uses up a glyph. -/
def readAll : (steps : Nat) → Layout → List Glyph → Option (List Token)
  | 0, _, _ => none
  | steps + 1, s, gs =>
    match s.skipGap false gs with
    | (s, []) => s.closeAll.dropKey.map fun s => s.tokens.reverse
    | (s, g :: rest) => do
      let s ← s.dropDistantKeys g
      let (s, rest) ← (s.closeTo g.column).readToken g rest
      readAll steps s rest

end Layout

/-- The tokens of a YAML text. -/
def tokens? (t : Text) : Option (List Token) := do
  let gs ← glyphs? t
  Layout.readAll (gs.length + 1) .start gs

end Redeploy.Yaml
