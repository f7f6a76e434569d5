import Redeploy.Yaml.Token

set_option autoImplicit false

/-! # Nodes

What the tokens of a document make up: scalars, sequences and mappings, each with its tag if it has
one. An alias stands for the node that was anchored last under its name, so a node is a tree without
references. A text of a few lines can denote an enormous tree in this way. The number of aliases
that have to be followed and the depth of the tree are therefore counted while it is built, and both
are limited. -/

namespace Redeploy.Yaml

/-- A part of a YAML document. -/
inductive Node where
  /-- A text, and how it is written. -/
  | scalar (text : Text) (style : Style) (tag : Option Text)
  /-- Nodes in an order. -/
  | sequence (items : List Node) (tag : Option Text)
  /-- Pairs of a key and a value. -/
  | mapping (entries : List (Node × Node)) (tag : Option Text)
  deriving Repr, Inhabited

namespace Node

/-! ## What a node costs -/

/-- A node and the work that it asks for. -/
structure Measured where
  /-- The node. -/
  node : Node
  /-- How many aliases are followed in it. -/
  aliases : Nat
  /-- How many sequences and mappings lie around its innermost part. -/
  depth : Nat

namespace Measured

/-- A scalar. -/
def scalar (text : Text) (style : Style) (tag : Option Text) : Measured :=
  ⟨.scalar text style tag, 0, 0⟩

/-- How many aliases are followed in all of some nodes. -/
def totalAliases (ms : List Measured) : Nat :=
  ms.foldl (fun n m => n + m.aliases) 0

/-- The depth of the deepest of some nodes. -/
def maxDepth (ms : List Measured) : Nat :=
  ms.foldl (fun n m => max n m.depth) 0

/-- A sequence. -/
def sequence (items : List Measured) (tag : Option Text) : Measured :=
  ⟨.sequence (items.map (·.node)) tag, totalAliases items, maxDepth items + 1⟩

/-- A mapping. -/
def mapping (entries : List (Measured × Measured)) (tag : Option Text) : Measured :=
  let parts := entries.map (·.1) ++ entries.map (·.2)
  ⟨.mapping (entries.map fun e => (e.1.node, e.2.node)) tag, totalAliases parts,
    maxDepth parts + 1⟩

end Measured

/-! ## The state of reading -/

/-- The tokens that are left, and what those before them have defined. -/
structure Reading where
  /-- The tokens that are left. -/
  tokens : List Token
  /-- What the handles of tags stand for. -/
  handles : List (Text × Text)
  /-- The numbers of the anchored nodes by name, the last one first. -/
  anchors : List (Text × Nat)
  /-- The anchored nodes that have been read to their end, by number. -/
  finished : List (Nat × Measured)
  /-- How many starts and ends of nodes have been met. -/
  events : Nat

namespace Reading

/-- Go on to other tokens. -/
def goTo (s : Reading) (tokens : List Token) : Reading :=
  { s with tokens := tokens }

/-- Count starts and ends of nodes. -/
def count (s : Reading) (n : Nat) : Reading :=
  { s with events := s.events + n }

/-- Give an anchored node its number. -/
def declare (s : Reading) (name : Text) : Reading :=
  { s with anchors := (name, s.anchors.length) :: s.anchors }

/-- Keep an anchored node under its number. -/
def finish (s : Reading) (number : Nat) (m : Measured) : Reading :=
  { s with finished := (number, m) :: s.finished }

/-- The node that an alias stands for: the last one anchored under its name. A node that is not at
    its end yet would contain itself. -/
def resolve? (s : Reading) (name : Text) : Option Measured := do
  let number ← s.anchors.lookup name
  let m ← s.finished.lookup number
  return { m with aliases := m.aliases + 1 }

/-- The tag that a tag name stands for. -/
def tag? (s : Reading) (name : TagName) : Option Text :=
  if name.handle.isEmpty then some name.suffix
  else (s.handles.lookup name.handle).map fun meaning => meaning ++ name.suffix

/-- Something that was left out. -/
def absent (s : Reading) : Measured × Reading :=
  (.scalar [] .plain none, s.count 1)

end Reading

/-- The anchor and the tag of a node. -/
structure Properties where
  /-- The name of the anchor. -/
  anchor : Option Text
  /-- The tag. -/
  tag : Option Text

/-- The properties that stand here: at most one anchor and one tag, in either order. -/
def readProperties (s : Reading) : Option (Properties × Reading) :=
  match s.tokens with
  | .anchor name :: .tag t :: rest => (s.tag? t).map fun tag => (⟨some name, some tag⟩, s.goTo rest)
  | .anchor name :: rest => some (⟨some name, none⟩, s.goTo rest)
  | .tag t :: .anchor name :: rest => (s.tag? t).map fun tag => (⟨some name, some tag⟩, s.goTo rest)
  | .tag t :: rest => (s.tag? t).map fun tag => (⟨none, some tag⟩, s.goTo rest)
  | _ => some (⟨none, none⟩, s)

/-- The tag of a scalar that is written out: a lone exclamation mark counts as none. -/
def scalarTag (tag : Option Text) : Option Text :=
  if tag = some ['!'] then none else tag

/-! ## Reading nodes -/

/-- Where a node stands, which decides what it can be. -/
inductive Place where
  /-- Among brackets or braces. -/
  | flow
  /-- As an item of a block. -/
  | item
  /-- As a key or a value of a block mapping, where the items of a sequence need not be indented. -/
  | entry
  deriving DecidableEq, Repr

mutual

/-- The node that stands here. -/
def read : (steps : Nat) → Place → Reading → Option (Measured × Reading)
  | 0, _, _ => none
  | steps + 1, place, s =>
    match s.tokens with
    | .reference name :: rest =>
      (s.resolve? name).map fun m => (m, (s.goTo rest).count 1)
    | _ =>
      match readProperties s with
      | none => none
      | some (p, s) =>
        match p.anchor with
        | none => readContent steps place p s
        | some name =>
          match readContent steps place p (s.declare name) with
          | some (m, s') => some (m, s'.finish s.anchors.length m)
          | none => none

/-- The node that stands here, behind its properties. -/
def readContent : (steps : Nat) → Place → Properties → Reading → Option (Measured × Reading)
  | 0, _, _, _ => none
  | steps + 1, place, p, s =>
    match s.tokens with
    | .scalar text style :: rest =>
      some (.scalar text style (scalarTag p.tag), (s.goTo rest).count 1)
    | .openBracket :: rest =>
      (readFlowItems steps true ((s.goTo rest).count 2)).map fun (items, s') =>
        (.sequence items p.tag, s')
    | .openBrace :: rest =>
      (readFlowEntries steps true ((s.goTo rest).count 2)).map fun (entries, s') =>
        (.mapping entries p.tag, s')
    | t :: rest =>
      if t = .dash ∧ place = .entry then
        (readLooseItems steps (s.count 2)).map fun (items, s') => (.sequence items p.tag, s')
      else if t = .blockSequence ∧ place ≠ .flow then
        (readItems steps ((s.goTo rest).count 2)).map fun (items, s') => (.sequence items p.tag, s')
      else if t = .blockMapping ∧ place ≠ .flow then
        (readEntries steps ((s.goTo rest).count 2)).map fun (entries, s') =>
          (.mapping entries p.tag, s')
      else if p.anchor.isSome || p.tag.isSome then some (.scalar [] .plain p.tag, s.count 1)
      else none
    | [] =>
      if p.anchor.isSome || p.tag.isSome then some (.scalar [] .plain p.tag, s.count 1) else none

/-- The node that stands here, or nothing if one of the given tokens stands here. -/
def readUnless : (steps : Nat) → List Token → Place → Reading → Option (Measured × Reading)
  | 0, _, _, _ => none
  | steps + 1, stops, place, s =>
    match s.tokens with
    | t :: _ => if stops.contains t then some s.absent else read steps place s
    | [] => read steps place s

/-- The items of a block sequence. -/
def readItems : (steps : Nat) → Reading → Option (List Measured × Reading)
  | 0, _ => none
  | steps + 1, s =>
    match s.tokens with
    | .dash :: rest =>
      match readUnless steps [.dash, .blockEnd] .item (s.goTo rest) with
      | some (m, s') => (readItems steps s').map fun (ms, s'') => (m :: ms, s'')
      | none => none
    | .blockEnd :: rest => some ([], s.goTo rest)
    | _ => none

/-- The items of a block sequence that is not indented; nothing marks its end. -/
def readLooseItems : (steps : Nat) → Reading → Option (List Measured × Reading)
  | 0, _ => none
  | steps + 1, s =>
    match s.tokens with
    | .dash :: rest =>
      match readUnless steps [.dash, .key, .value, .blockEnd] .item (s.goTo rest) with
      | some (m, s') => (readLooseItems steps s').map fun (ms, s'') => (m :: ms, s'')
      | none => none
    | _ => some ([], s)

/-- The value of an entry, if there is one. -/
def readEntryValue : (steps : Nat) → List Token → Place → Reading → Option (Measured × Reading)
  | 0, _, _, _ => none
  | steps + 1, stops, place, s =>
    match s.tokens with
    | .value :: rest => readUnless steps stops place (s.goTo rest)
    | _ => some s.absent

/-- The entries of a block mapping. -/
def readEntries : (steps : Nat) → Reading → Option (List (Measured × Measured) × Reading)
  | 0, _ => none
  | steps + 1, s =>
    match s.tokens with
    | .key :: rest =>
      match readUnless steps [.key, .value, .blockEnd] .entry (s.goTo rest) with
      | none => none
      | some (key, s') =>
        match readEntryValue steps [.key, .value, .blockEnd] .entry s' with
        | some (m, s'') => (readEntries steps s'').map fun (es, s''') => ((key, m) :: es, s''')
        | none => none
    | .blockEnd :: rest => some ([], s.goTo rest)
    | _ => none

/-- The items of a sequence in brackets. An item may be a mapping of one entry without braces. -/
def readFlowItems : (steps : Nat) → (first : Bool) → Reading → Option (List Measured × Reading)
  | 0, _, _ => none
  | steps + 1, first, s =>
    match afterComma first .closeBracket s with
    | none => none
    | some s =>
      match s.tokens with
      | .closeBracket :: rest => some ([], s.goTo rest)
      | .key :: rest =>
        match readPair steps ((s.goTo rest).count 2) with
        | some (m, s') => (readFlowItems steps false s').map fun (ms, s'') => (m :: ms, s'')
        | none => none
      | _ =>
        match read steps .flow s with
        | some (m, s') => (readFlowItems steps false s').map fun (ms, s'') => (m :: ms, s'')
        | none => none

/-- A mapping of one entry without braces. A key that is left out takes the mark behind it with
    it. -/
def readPair : (steps : Nat) → Reading → Option (Measured × Reading)
  | 0, _ => none
  | steps + 1, s =>
    let key := match s.tokens with
      | .value :: rest => some (s.goTo rest).absent
      | .comma :: rest => some (s.goTo rest).absent
      | .closeBracket :: rest => some (s.goTo rest).absent
      | _ => read steps .flow s
    match key with
    | none => none
    | some (key, s') =>
      (readEntryValue steps [.comma, .closeBracket] .flow s').map fun (m, s'') =>
        (.mapping [(key, m)] none, s'')

/-- The entries of a mapping in braces. A key without a colon has no value. -/
def readFlowEntries :
    (steps : Nat) → (first : Bool) → Reading → Option (List (Measured × Measured) × Reading)
  | 0, _, _ => none
  | steps + 1, first, s =>
    match afterComma first .closeBrace s with
    | none => none
    | some s =>
      match s.tokens with
      | .closeBrace :: rest => some ([], s.goTo rest)
      | .key :: rest =>
        match readUnless steps [.value, .comma, .closeBrace] .flow (s.goTo rest) with
        | none => none
        | some (key, s') =>
          match readEntryValue steps [.comma, .closeBrace] .flow s' with
          | some (m, s'') =>
            (readFlowEntries steps false s'').map fun (es, s''') => ((key, m) :: es, s''')
          | none => none
      | _ =>
        match read steps .flow s with
        | none => none
        | some (key, s') =>
          let (m, s'') := s'.absent
          (readFlowEntries steps false s'').map fun (es, s''') => ((key, m) :: es, s''')

/-- The state behind the comma that all items but the first need, unless the closing mark follows
    at once. -/
def afterComma (first : Bool) (closing : Token) (s : Reading) : Option Reading :=
  match s.tokens with
  | t :: rest =>
    if t = closing || first then some s else if t = .comma then some (s.goTo rest) else none
  | [] => if first then some s else none

end

/-! ## Documents -/

/-- The handles that every document has. -/
def standardHandles : List (Text × Text) :=
  [(['!'], ['!']), (['!', '!'], "tag:yaml.org,2002:".toList)]

/-- The directives in front of a document: at most one version, which is known, and no handle
    twice. The answer is the handles, and the tokens behind the directives. -/
def readDirectives : (hasVersion : Bool) → (handles : List (Text × Text)) → List Token →
    Option (List (Text × Text) × List Token)
  | hasVersion, handles, .directive (.version major minor) :: rest =>
    if hasVersion || major != 1 || (minor != 1 && minor != 2) then none
    else readDirectives true handles rest
  | hasVersion, handles, .directive (.handle name meaning) :: rest =>
    if (handles.lookup name).isSome then none
    else readDirectives hasVersion (handles ++ [(name, meaning)]) rest
  | _, handles, rest => some (handles, rest)

/-- Whether a document has ended: a directive or a document mark follows, or nothing. -/
def atDocumentEnd : List Token → Bool
  | [] => true
  | .directive _ :: _ => true
  | .documentStart :: _ => true
  | .documentEnd :: _ => true
  | _ => false

/-- The state at the start of a document. -/
def documentStart (handles : List (Text × Text)) (tokens : List Token) : Reading :=
  ⟨tokens, handles ++ standardHandles, [], [], 0⟩

/-- The node of a document whose content starts here. Every token is used up within four calls. -/
def readWhole (s : Reading) : Option (Measured × Reading) :=
  read (4 * s.tokens.length + 4) .item s

/-- The node of the first document. A text without tokens has an absent one. -/
def readDocument : List Token → Option (Measured × Reading)
  | [] => some (documentStart [] []).absent
  | tokens => do
    match tokens with
    | .directive _ :: _ | .documentStart :: _ =>
      let (handles, rest) ← readDirectives false [] tokens
      match rest with
      | .documentStart :: rest =>
        let s := documentStart handles rest
        if atDocumentEnd rest then return s.absent else readWhole s
      | _ => none
    | _ => readWhole (documentStart [] tokens)

/-- How deep sequences and mappings may lie inside each other. -/
def maxDepth : Nat := 128

/-- How many aliases may be followed for every start and end of a node in the text. -/
def aliasFactor : Nat := 100

/-- The node that tokens make up: they are those of one document. -/
def ofTokens? (tokens : List Token) : Option Node := do
  let (m, s) ← readDocument tokens
  if s.tokens.all (· == .documentEnd) && m.depth ≤ maxDepth &&
      m.aliases ≤ aliasFactor * s.events then
    return m.node
  none

end Node

/-- The node that a YAML text denotes. -/
def parse? (t : Text) : Option Node :=
  (tokens? t).bind Node.ofTokens?

end Redeploy.Yaml
