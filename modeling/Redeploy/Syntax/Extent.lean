import Redeploy.Text.Basic

set_option autoImplicit false

/-! # How far a mark extends

How many characters of a text belong to the number, word, symbol or piece of a string at its
start. -/

namespace Redeploy.Syntax

/-- How many characters at the start of a text are of a class. -/
def runLength (p : Char → Bool) (t : Text) : Nat :=
  (t.takeWhile p).length

/-! ## Numbers -/

/-- Hexadecimal digits. -/
def isHexDigit (c : Char) : Bool :=
  isAsciiDigit c || (97 ≤ c.toNat && c.toNat ≤ 102) || (65 ≤ c.toNat && c.toNat ≤ 70)

/-- Digits in which every digit may be followed by one underscore. -/
def digitsLength (afterDigit : Bool) : Text → Nat
  | [] => 0
  | c :: t =>
    if isAsciiDigit c then digitsLength true t + 1
    else if c = '_' && afterDigit then digitsLength false t + 1
    else 0

/-- Digits of a class in which every digit may have one underscore in front of it. -/
def basedDigitsLength (isDigit : Char → Bool) : Text → Nat
  | '_' :: c :: t => if isDigit c then basedDigitsLength isDigit t + 2 else 0
  | c :: t => if isDigit c then basedDigitsLength isDigit t + 1 else 0
  | [] => 0

/-- The digits that may follow a zero and a letter. -/
def basedDigit? (letter : Char) : Option (Char → Bool) :=
  if letter = 'x' ∨ letter = 'X' then some isHexDigit
  else if letter = 'o' ∨ letter = 'O' then some fun c => 48 ≤ c.toNat && c.toNat ≤ 55
  else if letter = 'b' ∨ letter = 'B' then some fun c => c = '0' || c = '1'
  else none

/-- One character of a class, if it comes next. -/
def optionalLength (p : Char → Bool) : Text → Nat
  | c :: _ => if p c then 1 else 0
  | [] => 0

/-- An exponent with its letter and sign, if one comes next. -/
def exponentLength (t : Text) : Nat :=
  match t with
  | e :: rest =>
    if e = 'e' || e = 'E' then
      let sign := optionalLength (fun c => c = '+' || c = '-') rest
      let digits := digitsLength false (rest.drop sign)
      if digits = 0 then 0 else 1 + sign + digits
    else 0
  | [] => 0

/-- The mark of an imaginary number, if it comes next. -/
def imaginaryLength (t : Text) : Nat :=
  optionalLength (fun c => c = 'j' || c = 'J') t

/-- The mark of a long number, if it comes next. -/
def longLength (t : Text) : Nat :=
  optionalLength (fun c => c = 'l' || c = 'L') t

/-- A number in a base that is given by a letter, if the text starts with one. -/
def basedLength (t : Text) : Nat :=
  match t with
  | '0' :: letter :: rest =>
    match basedDigit? letter with
    | some isDigit =>
      let digits := basedDigitsLength isDigit rest
      if digits = 0 then 0 else 2 + digits + longLength (rest.drop digits)
    | none => 0
  | _ => 0

/-- The number at the start of a text: its length, and whether it has a point or an exponent. The
    length is zero if the text does not start with a number. -/
def numberLength (t : Text) : Nat × Bool :=
  let based := basedLength t
  if based ≠ 0 then (based, false)
  else
    let whole := digitsLength false t
    match t.drop whole with
    | '.' :: rest =>
      let fraction := digitsLength false rest
      if whole = 0 ∧ fraction = 0 then (0, false)
      else
        let body := whole + 1 + fraction
        let scaled := body + exponentLength (t.drop body)
        (scaled + imaginaryLength (t.drop scaled), true)
    | rest =>
      if whole = 0 then (0, false)
      else
        let exponent := exponentLength rest
        if exponent = 0 then
          let long := longLength rest
          (whole + if long = 0 then imaginaryLength rest else long, false)
        else (whole + exponent + imaginaryLength (rest.drop exponent), true)

/-! ## Symbols -/

/-- The symbols, longer ones before those they start with. -/
def symbols : List Text :=
  ["**=", "//=", ">>=", "<<=", "...", "**", "//", "<<", ">>", "<=", ">=", "==", "!=", "<>", "->",
    "+=", "-=", "*=", "/=", "@=", "%=", "&=", "^=", "|=", ":=", "+", "-", "*", "/", "%", "@", "&",
    "|", "^", "~", "<", ">", "(", ")", "[", "]", "\x7b", "\x7d", ",", ":", ".", ";", "="].map
    String.toList

/-- The symbol at the start of a text. -/
def symbolLength (t : Text) : Nat :=
  match symbols.find? fun s => s.isPrefixOf t with
  | some s => s.length
  | none => 0

/-! ## Strings -/

/-- How a string is delimited and read. -/
structure Delimiter where
  /-- The quote. -/
  quote : Char
  /-- Whether three quotes stand at each end. -/
  triple : Bool
  /-- Whether the string has parts in braces that are expressions. -/
  format : Bool
  /-- Whether backslashes are ordinary characters. -/
  raw : Bool
  deriving DecidableEq, Repr

/-- The letters that may stand in front of a string. -/
def isMarkerLetter (c : Char) : Bool :=
  ['f', 'F', 'r', 'R', 'b', 'B', 'u', 'U'].contains c

/-- The characters that delimit strings. -/
def isDelimiterQuote (c : Char) : Bool :=
  c = '"' || c = '\'' || c.toNat = 96

namespace Delimiter

/-- How many characters stand at each end. -/
def size (d : Delimiter) : Nat :=
  if d.triple then 3 else 1

/-- Whether a text starts with the closing delimiter. -/
def closes (d : Delimiter) (t : Text) : Bool :=
  (List.replicate d.size d.quote).isPrefixOf t

/-- The opening of a string at the start of a text: its letters and quotes, and how it is read. -/
def opening? (t : Text) : Option (Nat × Delimiter) :=
  let marker := t.takeWhile isMarkerLetter
  match t.drop marker.length with
  | q :: rest =>
    if isDelimiterQuote q then
      let triple := q.toNat ≠ 96 && [q, q].isPrefixOf rest
      let d : Delimiter := {
        quote := q
        triple := triple
        format := marker.any fun c => c = 'f' || c = 'F'
        raw := marker.any fun c => c = 'r' || c = 'R' }
      some (marker.length + d.size, d)
    else none
  | [] => none

/-- The length of a line break, if one comes next. -/
def breakLength : Text → Nat
  | '\n' :: _ => 1
  | '\r' :: '\n' :: _ => 2
  | _ => 0

/-- What a backslash takes with it in a string whose backslashes are escapes: a quote, a backslash, a
    line break, or a character given by its name. All other escapes go on with ordinary
    characters. -/
def escapeLength : Text → Nat
  | 'N' :: '{' :: t =>
    let name := runLength (fun c => c != '\x7d') t
    if name = 0 ∨ t.length ≤ name then 0 else name + 3
  | c :: t =>
    if c = '"' || c = '\'' || c = '\\' then 1 else breakLength (c :: t)
  | [] => 0

/-- What a backslash takes with it in a raw string: the quote or a backslash, and a line break. -/
def rawEscapeLength (d : Delimiter) : Text → Nat
  | c :: t => if c = d.quote || c = '\\' then 1 + breakLength t else breakLength (c :: t)
  | [] => 0

end Delimiter

/-- What ends a piece of a string's content. -/
inductive ContentEnd where
  /-- The closing delimiter. -/
  | quote
  /-- The brace that opens an interpolation. -/
  | brace
  /-- Something that cannot stand there. -/
  | broken
  deriving DecidableEq, Repr

/-- One character more. -/
def ContentEnd.oneMore (r : Nat × ContentEnd) : Nat × ContentEnd :=
  (r.1 + 1, r.2)

/-- The content of a string up to its delimiter or its next interpolation. `skip` characters belong
    to an escape and are passed over. A line break ends a string with one quote at each end, unless
    it is the first character of its piece. -/
def contentLength (d : Delimiter) : (skip : Nat) → (first : Bool) → Text → Nat × ContentEnd
  | _, _, [] => (0, .broken)
  | skip + 1, first, _ :: t => ContentEnd.oneMore (contentLength d skip first t)
  | 0, first, c :: t =>
    if d.closes (c :: t) then (0, .quote)
    else if c = '\\' then
      if d.raw then ContentEnd.oneMore (contentLength d (d.rawEscapeLength t) first t)
      else ContentEnd.oneMore (contentLength d (Delimiter.escapeLength t) true t)
    else if d.format && (c = '\x7b' || c = '\x7d') then
      if t.head? = some c then ContentEnd.oneMore (contentLength d 1 true t)
      else (0, if c = '\x7b' then .brace else .broken)
    else if c = '\n' && !d.triple && !first then (0, .broken)
    else ContentEnd.oneMore (contentLength d 0 false t)

end Redeploy.Syntax
