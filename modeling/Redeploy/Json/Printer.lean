import Redeploy.Value

set_option autoImplicit false

/-! # Writing JSON

Two layouts of the same text: `compact` on one line without blanks, and `pretty` with one item or
field a line, indented by two spaces. Only the quote, the backslash and control characters are
escaped; all other characters stand as they are. -/

namespace Redeploy.Json

/-! ## Strings -/

/-- A hexadecimal digit in lowercase. -/
def hexDigit (n : Nat) : Char :=
  if n < 10 then Char.ofNat (48 + n) else Char.ofNat (87 + n)

/-- A character as it stands inside a JSON string. -/
def escapeChar (c : Char) : List Char :=
  if c = '"' then ['\\', '"']
  else if c = '\\' then ['\\', '\\']
  else if c = '\n' then ['\\', 'n']
  else if c = '\r' then ['\\', 'r']
  else if c = '\t' then ['\\', 't']
  else if c.toNat = 8 then ['\\', 'b']
  else if c.toNat = 12 then ['\\', 'f']
  else if c.toNat < 32 then
    ['\\', 'u', '0', '0', hexDigit (c.toNat / 16), hexDigit (c.toNat % 16)]
  else [c]

/-- A string in quotes. -/
def quoteString (s : String) : String :=
  String.ofList ('"' :: s.toList.flatMap escapeChar ++ ['"'])

/-! ## Values -/

/-- The line break and indentation in front of a part at a depth. -/
def lineBreak (depth : Nat) : String :=
  "\n" ++ String.ofList (List.replicate (2 * depth) ' ')

mutual

/-- A value on one line. -/
def compact : Value → String
  | .null => "null"
  | .bool b => if b then "true" else "false"
  | .int n => toString n
  | .decimal d => d.render
  | .text s => quoteString s
  | .list items => "[" ++ ",".intercalate (compactItems items) ++ "]"
  | .object fields => "\x7b" ++ ",".intercalate (compactFields fields) ++ "\x7d"

/-- Every item on one line. -/
def compactItems : List Value → List String
  | [] => []
  | v :: vs => compact v :: compactItems vs

/-- Every field on one line. -/
def compactFields : List (String × Value) → List String
  | [] => []
  | (name, v) :: rest => (quoteString name ++ ":" ++ compact v) :: compactFields rest

end

mutual

/-- A value with one part a line; its own lines are indented to `depth`. -/
def prettyAt (depth : Nat) : Value → String
  | .list [] => "[]"
  | .list items =>
    "[" ++ ",".intercalate (prettyItems (depth + 1) items) ++ lineBreak depth ++ "]"
  | .object [] => "\x7b\x7d"
  | .object fields =>
    "\x7b" ++ ",".intercalate (prettyFields (depth + 1) fields) ++ lineBreak depth ++ "\x7d"
  | .null => "null"
  | .bool b => if b then "true" else "false"
  | .int n => toString n
  | .decimal d => d.render
  | .text s => quoteString s

/-- Every item on lines of its own. -/
def prettyItems (depth : Nat) : List Value → List String
  | [] => []
  | v :: vs => (lineBreak depth ++ prettyAt depth v) :: prettyItems depth vs

/-- Every field on lines of its own. -/
def prettyFields (depth : Nat) : List (String × Value) → List String
  | [] => []
  | (name, v) :: rest =>
    (lineBreak depth ++ quoteString name ++ ": " ++ prettyAt depth v) :: prettyFields depth rest

end

/-- A value with one part a line. -/
def pretty (v : Value) : String :=
  prettyAt 0 v

end Redeploy.Json
