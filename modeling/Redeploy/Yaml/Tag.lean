import Redeploy.Yaml.Glyph

set_option autoImplicit false

/-! # Names, tags and directives

The properties that a node can have in front of it, an anchor and a tag, and the directives that a
document can have in front of it. A tag is written whole between `!<` and `>`, or as a handle and a
suffix; the document says what a handle stands for. Tags are compared byte by byte, so an escaped
byte is kept as the character of its number. -/

namespace Redeploy.Yaml

/-! ## Anchors -/

/-- Whether the name of an anchor or of an alias may end here. -/
def atNameEnd (gs : List Glyph) : Bool :=
  atGap gs || startsWith (fun c => "?:,]%@`".toList.contains c || c == '\x7d') gs

/-- The name of an anchor or alias. -/
def readName (gs : List Glyph) : Option (Text × List Glyph) :=
  let (name, rest) := takeText isNameChar gs
  if name.isEmpty || !atNameEnd rest then none else some (name, rest)

/-! ## Tags -/

/-- Characters of a tag. Commas and brackets are among them only where the tag is written whole. -/
def isTagChar (whole : Bool) (c : Char) : Bool :=
  isNameChar c || ";/?:@&=+$.%!~*'()".toList.contains c || (whole && ",[]".toList.contains c)

/-- An escaped byte: a percent sign and two hexadecimal digits. -/
def readByte : List Glyph → Option (Nat × List Glyph)
  | p :: a :: b :: rest =>
    if p.char = '%' then (readNat? 16 [a.char, b.char]).map fun n => (n, rest) else none
  | _ => none

/-- How many bytes follow a first byte of UTF-8. -/
def followingBytes? (n : Nat) : Option Nat :=
  if n < 0x80 then some 0
  else if 0xC0 ≤ n ∧ n < 0xE0 then some 1
  else if 0xE0 ≤ n ∧ n < 0xF0 then some 2
  else if 0xF0 ≤ n ∧ n < 0xF8 then some 3
  else none

/-- Escaped bytes that continue a character. -/
def readContinuation : Nat → List Glyph → Option (Text × List Glyph)
  | 0, gs => some ([], gs)
  | n + 1, gs =>
    match readByte gs with
    | some (b, rest) =>
      if 0x80 ≤ b ∧ b < 0xC0 then
        (readContinuation n rest).map fun (bytes, rest') => (Char.ofNat b :: bytes, rest')
      else none
    | none => none

/-- The bytes of an escaped character. -/
def readEscapedChar (gs : List Glyph) : Option (Text × List Glyph) := do
  let (b, rest) ← readByte gs
  let n ← followingBytes? b
  let (bytes, rest) ← readContinuation n rest
  return (Char.ofNat b :: bytes, rest)

/-- The characters of a tag that are left. -/
def readTagChars (whole : Bool) : (steps : Nat) → List Glyph → Option (Text × List Glyph)
  | 0, gs => some ([], gs)
  | _ + 1, [] => some ([], [])
  | steps + 1, g :: rest =>
    if g.char = '%' then
      match readEscapedChar (g :: rest) with
      | some (bytes, rest') =>
        (readTagChars whole steps rest').map fun (t, rest'') => (bytes ++ t, rest'')
      | none => none
    else if isTagChar whole g.char then
      (readTagChars whole steps rest).map fun (t, rest') => (g.char :: t, rest')
    else some ([], g :: rest)

/-- The characters of a tag. -/
def readTagText (whole : Bool) (gs : List Glyph) : Option (Text × List Glyph) :=
  readTagChars whole (gs.length + 1) gs

/-- A handle: exclamation marks with a name between them. The second mark may be missing. -/
def readHandle : List Glyph → Option (Text × List Glyph)
  | [] => none
  | g :: rest =>
    if g.char = '!' then
      let (name, rest) := takeText isNameChar rest
      if startsWith (fun c => c == '!') rest then some ('!' :: name ++ ['!'], rest.drop 1)
      else some ('!' :: name, rest)
    else none

/-- A tag as it is written: a handle, empty if the tag is written whole, and the rest. -/
structure TagName where
  /-- The handle. -/
  handle : Text
  /-- What follows the handle. -/
  suffix : Text
  deriving DecidableEq, Repr

/-- A tag that is written whole, behind its opening bracket. -/
def readWholeTag (gs : List Glyph) : Option (TagName × List Glyph) := do
  let (t, rest) ← readTagText true gs
  if t.isEmpty || !startsWith (fun c => c == '>') rest then none
  return (⟨[], t⟩, rest.drop 1)

/-- A tag with a handle. One exclamation mark alone is the tag `!`. -/
def readShortTag (gs : List Glyph) : Option (TagName × List Glyph) := do
  let (handle, rest) ← readHandle gs
  let (t, rest) ← readTagText false rest
  if handle.length > 1 && handle.getLast? == some '!' then
    if t.isEmpty then none
    return (⟨handle, t⟩, rest)
  else
    let suffix := handle.drop 1 ++ t
    return (if suffix.isEmpty then ⟨[], ['!']⟩ else ⟨['!'], suffix⟩, rest)

/-- The tag that starts here. -/
def readTag (flow : Bool) (gs : List Glyph) : Option (TagName × List Glyph) := do
  let (tag, rest) ← if startsWith (fun c => c == '<') (gs.drop 1) then readWholeTag (gs.drop 2)
    else readShortTag gs
  if atGap rest || (flow && startsWith (fun c => c == ',') rest) then return (tag, rest)
  none

/-! ## Directives -/

/-- A directive of a document. -/
inductive Directive where
  /-- The version of YAML that the document is written in. -/
  | version (major minor : Nat)
  /-- What a handle stands for. -/
  | handle (name meaning : Text)
  deriving DecidableEq, Repr

/-- A version number of at most nine digits. -/
def readVersionNumber (gs : List Glyph) : Option (Nat × List Glyph) :=
  let (digits, rest) := takeText isAsciiDigit gs
  if digits.length > 9 then none else (readNat? 10 digits).map fun n => (n, rest)

/-- The value of a version directive. -/
def readVersion (gs : List Glyph) : Option (Directive × List Glyph) := do
  let (major, rest) ← readVersionNumber (skipBlanks gs)
  if !startsWith (fun c => c == '.') rest then none
  let (minor, rest) ← readVersionNumber (rest.drop 1)
  return (.version major minor, rest)

/-- The value of a directive that defines a handle. -/
def readHandleMeaning (gs : List Glyph) : Option (Directive × List Glyph) := do
  let (handle, rest) ← readHandle (skipBlanks gs)
  if handle.getLast? != some '!' || !startsWith isBlank rest then none
  let (meaning, rest) ← readTagText true (skipBlanks rest)
  if meaning.isEmpty || !atGap rest then none
  return (.handle handle meaning, rest)

/-- The directive whose percent sign has just been read, with its line. -/
def readDirective (gs : List Glyph) : Option (Directive × List Glyph) := do
  let (name, rest) := takeText isNameChar gs
  if !atGap rest then none
  let (directive, rest) ← if name = "YAML".toList then readVersion rest
    else if name = "TAG".toList then readHandleMeaning rest
    else none
  let rest ← endOfLine? rest
  return (directive, rest)

end Redeploy.Yaml
