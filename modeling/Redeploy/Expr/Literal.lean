import Redeploy.Text.Basic

set_option autoImplicit false

/-! # String literals

Writing a string as a literal (`quote`) and reading the string that a literal denotes (`decode?`). A
literal has a marker of letters, an opening delimiter, a body and the same delimiter again. Reading
knows plain and raw literals and the escapes of one character; a literal with any other marker or
escape has no value here, and stays as it is written. -/

namespace Redeploy.Literal

/-! ## Writing -/

/-- A character as it stands in a written literal. -/
def escapeChar (c : Char) : Text :=
  if c = '\\' then ['\\', '\\']
  else if c = '"' then ['\\', '"']
  else if c = '\n' then ['\\', 'n']
  else if c = '\t' then ['\\', 't']
  else if c = '\r' then ['\\', 'r']
  else [c]

/-- A string as a literal in double quotes. -/
def quoteText (value : Text) : Text :=
  '"' :: value.flatMap escapeChar ++ ['"']

/-- A string as a literal in double quotes. -/
def quote (value : String) : String :=
  String.ofList (quoteText value.toList)

/-! ## Reading -/

/-- What the escape with a given letter stands for; a line break after a backslash stands for
    nothing. -/
def escapeValue? (c : Char) : Option Text :=
  if c = '\\' ∨ c = '\'' ∨ c = '"' then some [c]
  else if c = 'n' then some ['\n']
  else if c = 't' then some ['\t']
  else if c = 'r' then some ['\r']
  else if c = '\n' then some []
  else none

/-- A body with its escapes replaced by what they stand for; `none` if one of them is not known, or
    if the body ends in the middle of one. -/
def unescape? : Text → Option Text
  | [] => some []
  | ['\\'] => none
  | '\\' :: c :: t =>
    match escapeValue? c with
    | some value => (unescape? t).map (value ++ ·)
    | none => none
  | c :: t => (unescape? t).map (c :: ·)

/-- Whether a character opens a literal. -/
def isQuote (c : Char) : Bool :=
  c == '"' || c == '\''

/-- The delimiter that a text starts with: three quotes of a kind, or else one. -/
def delimiter? : Text → Option Text
  | '"' :: '"' :: '"' :: _ => some ['"', '"', '"']
  | '\'' :: '\'' :: '\'' :: _ => some ['\'', '\'', '\'']
  | '"' :: _ => some ['"']
  | '\'' :: _ => some ['\'']
  | _ => none

/-- A letter of a marker in lowercase. -/
def lowerMarker (c : Char) : Char :=
  if 65 ≤ c.toNat ∧ c.toNat ≤ 90 then Char.ofNat (c.toNat + 32) else c

/-- Whether a marker makes a literal raw; `none` for a marker whose literals have no value here. -/
def isRawMarker? (marker : Text) : Option Bool :=
  match marker.map lowerMarker with
  | [] => some false
  | ['u'] => some false
  | ['r'] => some true
  | ['u', 'r'] => some true
  | ['r', 'u'] => some true
  | _ => none

/-- What stands between the delimiters of a literal without its marker. -/
def body? (t : Text) : Option Text :=
  match delimiter? t with
  | some d =>
    if 2 * d.length ≤ t.length ∧ d.isSuffixOf t then
      some ((t.drop d.length).take (t.length - 2 * d.length))
    else none
  | none => none

/-- The string that a literal denotes. -/
def decodeText? (t : Text) : Option Text :=
  let marker := t.takeWhile fun c => !isQuote c
  let quoted := t.dropWhile fun c => !isQuote c
  match isRawMarker? marker with
  | none => none
  | some true => body? quoted
  | some false => (body? quoted).bind unescape?

/-- The string that a literal denotes. -/
def decode? (t : String) : Option String :=
  (decodeText? t.toList).map String.ofList

end Redeploy.Literal
