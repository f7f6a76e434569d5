import Redeploy.Value

set_option autoImplicit false

/-! # Reading JSON

A strict reader: one value with blanks around it and nothing else, no comments, no trailing commas,
no raw control characters in strings, and escapes only as the format has them. A whole number within
64 bits is an integer, any other number a decimal fraction, and a fraction too large for a
double-precision number is refused. Nesting is limited, so that a text of brackets cannot ask for
unlimited work. -/

namespace Redeploy.Json

/-! ## Strings -/

/-- Blanks between the parts of a JSON text. -/
def isJsonBlank (c : Char) : Bool :=
  c == ' ' || c == '\t' || c == '\n' || c == '\r'

/-- The text without leading blanks. -/
def skipBlanks (t : Text) : Text :=
  t.dropWhile isJsonBlank

/-- Four hexadecimal digits. -/
def readHex4 : Text → Option (Nat × Text)
  | a :: b :: c :: d :: t => (readNat? 16 [a, b, c, d]).map fun n => (n, t)
  | _ => none

/-- A character that an escape names by one letter. -/
def simpleEscape? : Char → Option Char
  | '"' => some '"'
  | '\\' => some '\\'
  | '/' => some '/'
  | 'b' => some (Char.ofNat 8)
  | 'f' => some (Char.ofNat 12)
  | 'n' => some '\n'
  | 'r' => some '\r'
  | 't' => some '\t'
  | _ => none

/-- The code unit of a `\u` escape, or of a pair of them that makes up one character. -/
def readUnicodeEscape (t : Text) : Option (Char × Text) :=
  match readHex4 t with
  | none => none
  | some (unit, rest) =>
    if 0xD800 ≤ unit ∧ unit < 0xDC00 then
      match rest with
      | '\\' :: 'u' :: rest' =>
        match readHex4 rest' with
        | some (low, rest'') =>
          if 0xDC00 ≤ low ∧ low < 0xE000 then
            some (Char.ofNat (0x10000 + (unit - 0xD800) * 0x400 + (low - 0xDC00)), rest'')
          else none
        | none => none
      | _ => none
    else if 0xDC00 ≤ unit ∧ unit < 0xE000 then none
    else some (Char.ofNat unit, rest)

/-- The rest of a string after its opening quote. Every step uses up a character, so the length of
    the text bounds the number of steps. -/
def readString : Nat → List Char → Text → Option (String × Text)
  | 0, _, _ => none
  | _ + 1, _, [] => none
  | steps + 1, read, c :: t =>
    if c = '"' then some (String.ofList read.reverse, t)
    else if c = '\\' then
      match t with
      | 'u' :: t' =>
        match readUnicodeEscape t' with
        | some (d, rest) => readString steps (d :: read) rest
        | none => none
      | d :: t' =>
        match simpleEscape? d with
        | some e => readString steps (e :: read) t'
        | none => none
      | [] => none
    else if c.toNat < 32 then none
    else readString steps (c :: read) t

/-! ## Numbers -/

/-- The characters that may stand in a number. -/
def isNumberChar (c : Char) : Bool :=
  isAsciiDigit c || c == '-' || c == '+' || c == '.' || c == 'e' || c == 'E'

/-- Whether a number's text has the form of the format: no plus sign in front, no superfluous zero,
    and digits on both sides of a point. -/
def isWellFormedNumber (t : Text) : Bool :=
  let unsigned := match t with
    | '-' :: t => t
    | t => t
  let whole := unsigned.takeWhile isAsciiDigit
  let rest := unsigned.dropWhile isAsciiDigit
  let wholeOk := match whole with
    | [] => false
    | ['0'] => true
    | c :: _ => c != '0'
  let fractionOk := match rest with
    | '.' :: c :: _ => isAsciiDigit c
    | '.' :: [] => false
    | _ => true
  wholeOk && fractionOk

/-- The number that a text denotes. Minus zero is a fraction, since integers have no such number. -/
def readNumber (t : Text) : Option Value :=
  if isWellFormedNumber t then
    let isWhole := t.all fun c => isAsciiDigit c || c == '-'
    match if isWhole then readInt? 10 t else none with
    | some n =>
      if n = 0 ∧ t.head? = some '-' then some (.decimal ⟨true, 0, 0⟩)
      else if minInt64 ≤ n ∧ n ≤ maxNat64 then some (.int n)
      else (Decimal.read? t).bind fun d => if d.isFinite then some (.decimal d) else none
    | none => (Decimal.read? t).bind fun d => if d.isFinite then some (.decimal d) else none
  else none

/-! ## Values -/

mutual

/-- A value at the start of a text, and what follows it. `depth` is how many lists and objects may
    still be opened. -/
def readValue : (steps depth : Nat) → Text → Option (Value × Text)
  | 0, _, _ => none
  | steps + 1, depth, t =>
    match skipBlanks t with
    | [] => none
    | '"' :: rest => (readString (rest.length + 1) [] rest).map fun (s, r) => (.text s, r)
    | '[' :: rest =>
      if depth ≤ 1 then none
      else match skipBlanks rest with
        | ']' :: r => some (.list [], r)
        | r => (readItems steps (depth - 1) r).map fun (vs, r') => (.list vs, r')
    | '{' :: rest =>
      if depth ≤ 1 then none
      else match skipBlanks rest with
        | '}' :: r => some (.object [], r)
        | r => (readMembers steps (depth - 1) r).map fun (fs, r') => (.object fs, r')
    | 't' :: 'r' :: 'u' :: 'e' :: r => some (.bool true, r)
    | 'f' :: 'a' :: 'l' :: 's' :: 'e' :: r => some (.bool false, r)
    | 'n' :: 'u' :: 'l' :: 'l' :: r => some (.null, r)
    | c :: rest =>
      if c = '-' ∨ isAsciiDigit c then
        (readNumber ((c :: rest).takeWhile isNumberChar)).map fun v =>
          (v, (c :: rest).dropWhile isNumberChar)
      else none

/-- The items of a list up to its closing bracket. -/
def readItems : (steps depth : Nat) → Text → Option (List Value × Text)
  | 0, _, _ => none
  | steps + 1, depth, t =>
    match readValue steps depth t with
    | none => none
    | some (v, rest) =>
      match skipBlanks rest with
      | ',' :: r => (readItems steps depth r).map fun (vs, r') => (v :: vs, r')
      | ']' :: r => some ([v], r)
      | _ => none

/-- The fields of an object up to its closing brace. -/
def readMembers : (steps depth : Nat) → Text → Option (List (String × Value) × Text)
  | 0, _, _ => none
  | steps + 1, depth, t =>
    match skipBlanks t with
    | '"' :: rest =>
      match readString (rest.length + 1) [] rest with
      | none => none
      | some (name, r) =>
        match skipBlanks r with
        | ':' :: r' =>
          match readValue steps depth r' with
          | none => none
          | some (v, r'') =>
            match skipBlanks r'' with
            | ',' :: s => (readMembers steps depth s).map fun (fs, s') => ((name, v) :: fs, s')
            | '}' :: s => some ([(name, v)], s)
            | _ => none
        | _ => none
    | _ => none

end

/-- How many lists and objects may stand inside each other, the outermost included, plus one. -/
def maxDepth : Nat := 128

/-- The value that a JSON text denotes, with lists and objects nested less than `depth` deep. -/
def parseWithin? (depth : Nat) (t : Text) : Option Value :=
  match readValue (2 * t.length + 2) depth t with
  | some (v, rest) => if (skipBlanks rest).isEmpty then some v else none
  | none => none

/-- The value that a JSON text denotes. -/
def parse? (t : Text) : Option Value :=
  parseWithin? maxDepth t

end Redeploy.Json
