import Redeploy.Syntax.Extent

set_option autoImplicit false

/-! # Lexemes

A script cut into lexemes: words, numbers, symbols and the parts of strings, and between them blanks,
comments and line breaks. Nothing of the script is lost by the cut, `scan_text` says: the texts of
the lexemes, one after the other, are the script. -/

namespace Redeploy.Syntax

/-- The kind of a mark that the grammar knows. -/
inductive TokenKind where
  /-- A name or keyword. -/
  | word
  /-- A whole number. -/
  | integer
  /-- A number with a point or an exponent. -/
  | float
  /-- A symbol of punctuation or an operator. -/
  | symbol
  /-- The start of a string with its letters and quotes. -/
  | stringStart
  /-- The closing quotes of a string. -/
  | stringEnd
  /-- The brace that opens an interpolation. -/
  | interpolationStart
  /-- The brace that closes an interpolation. -/
  | interpolationEnd
  /-- The colon in front of a format. -/
  | formatStart
  /-- The choice of a conversion in an interpolation. -/
  | conversion
  /-- The end of a logical line. -/
  | newline
  /-- The start of an indented block. -/
  | indent
  /-- The end of an indented block. -/
  | dedent
  /-- Something that is no mark of the language. -/
  | bad
  deriving DecidableEq, Repr, Inhabited

/-- The kind of a lexeme. -/
inductive LexemeKind where
  /-- Blank characters within a line. -/
  | blank
  /-- A backslash and the line break that it hides. -/
  | continuation
  /-- A comment up to the end of its line. -/
  | comment
  /-- A line feed. -/
  | lineBreak
  /-- Characters of a string or of a format. -/
  | content
  /-- A mark that the grammar knows. -/
  | token (kind : TokenKind)
  deriving DecidableEq, Repr, Inhabited

/-- A piece of a script. -/
structure Lexeme where
  /-- What it is. -/
  kind : LexemeKind
  /-- How it is written. -/
  text : Text
  deriving DecidableEq, Repr, Inhabited

/-! ## What a piece of a script stands in -/

/-- How much of an interpolation has been read. -/
inductive Progress where
  /-- Nothing yet. -/
  | nothing
  /-- One word. -/
  | oneWord
  /-- More than that. -/
  | more
  deriving DecidableEq, Repr

/-- What a piece of a script stands in. -/
inductive Mode where
  /-- Brackets. -/
  | bracket
  /-- A string. -/
  | quoted (d : Delimiter)
  /-- The braces of an interpolation. -/
  | interpolation (progress : Progress)
  /-- The format of an interpolation. -/
  | format
  deriving DecidableEq, Repr

/-- Blank characters: spaces, tabs and the like, and some invisible characters. -/
def isGap (c : Char) : Bool :=
  let n := c.toNat
  n = 32 || n = 9 || n = 11 || n = 12 || n = 13 || n = 0xFEFF || n = 0x2060 || n = 0x200B

/-- An interpolation in which something more has been read. -/
def noteProgress (isWord : Bool) : List Mode → List Mode
  | .interpolation p :: modes =>
    .interpolation (if isWord && p = .nothing then .oneWord else .more) :: modes
  | modes => modes

/-- What follows a closing bracket is no longer in the brackets. -/
def closeBracket : List Mode → List Mode
  | .bracket :: modes => noteProgress false modes
  | modes => noteProgress false modes

/-- The symbol at the start of a text. A colon in an interpolation starts its format, and a brace
    ends it; but after a single word, a colon and an equals sign are an assignment. -/
def nextSymbol (modes : List Mode) (t : Text) : LexemeKind × Nat × List Mode :=
  let length := symbolLength t
  match t, modes with
  | '\x7d' :: _, .interpolation _ :: rest => (.token .interpolationEnd, 1, rest)
  | '!' :: c :: _, .interpolation _ :: _ =>
    if 97 ≤ c.toNat && c.toNat ≤ 122 then (.token .conversion, 2, modes)
    else (.token (if length = 0 then .bad else .symbol), max length 1, noteProgress false modes)
  | ':' :: c :: _, .interpolation p :: rest =>
    if c = '=' && p = .oneWord then (.token .symbol, 2, noteProgress false modes)
    else (.token .formatStart, 1, .format :: rest)
  | c :: _, modes =>
    if length = 0 then (.token .bad, 1, noteProgress false modes)
    else if c = '(' || c = '[' || c = '\x7b' then
      (.token .symbol, length, .bracket :: noteProgress false modes)
    else if c = ')' || c = ']' || c = '\x7d' then (.token .symbol, length, closeBracket modes)
    else (.token .symbol, length, noteProgress false modes)
  | [], modes => (.token .bad, 1, modes)

/-- The lexeme at the start of a text that is no part of a string or of a format: its kind, its
    length, and what the text after it stands in. -/
def nextInCode (modes : List Mode) (t : Text) : LexemeKind × Nat × List Mode :=
  match t with
  | [] => (.token .bad, 1, modes)
  | c :: rest =>
    if c = '\n' then (.lineBreak, 1, modes)
    else if isGap c then (.blank, runLength isGap t, modes)
    else if c = '#' then (.comment, runLength (fun d => d != '\n') t, modes)
    else if c = '\\' then
      if rest.isEmpty then (.continuation, 1, modes)
      else if Delimiter.breakLength rest = 0 then (.token .bad, 1, modes)
      else (.continuation, 1 + Delimiter.breakLength rest, modes)
    else
      match Delimiter.opening? t with
      | some (length, d) => (.token .stringStart, length, .quoted d :: noteProgress false modes)
      | none =>
        if startsIdentifier c then
          (.token .word, runLength continuesIdentifier t, noteProgress true modes)
        else
          let (length, isFloat) := numberLength t
          if length = 0 then nextSymbol modes t
          else (.token (if isFloat then .float else .integer), length, noteProgress false modes)

/-- The lexeme at the start of a text that is part of a string. -/
def nextInString (d : Delimiter) (modes : List Mode) (t : Text) : LexemeKind × Nat × List Mode :=
  match contentLength d 0 true t with
  | (0, .quote) => (.token .stringEnd, d.size, modes)
  | (0, .brace) => (.token .interpolationStart, 1, .interpolation .nothing :: .quoted d :: modes)
  | (0, .broken) =>
    (.token .bad, 1, if t.head? = some '\n' then modes else .quoted d :: modes)
  | (length, _) => (.content, length, .quoted d :: modes)

/-- The lexeme at the start of a text that is part of a format. -/
def nextInFormat (modes : List Mode) (t : Text) : LexemeKind × Nat × List Mode :=
  match t with
  | '\x7b' :: _ =>
    (.token .interpolationStart, 1, .interpolation .nothing :: .format :: modes)
  | '\x7d' :: _ => (.token .interpolationEnd, 1, modes)
  | '\n' :: _ => (.blank, 1, .format :: modes)
  | _ => (.content, runLength (fun c => c != '\x7b' && c != '\x7d' && c != '\n') t, .format :: modes)

/-- The lexeme at the start of a text. -/
def nextLexeme (modes : List Mode) (t : Text) : LexemeKind × Nat × List Mode :=
  match modes with
  | .quoted d :: rest => nextInString d rest t
  | .format :: rest => nextInFormat rest t
  | modes => nextInCode modes t

/-! ## Cutting a script -/

/-- The lexemes of a text. Each takes at least one character, so the length of the text bounds their
    number. -/
def scanWith : (steps : Nat) → List Mode → Text → List Lexeme
  | 0, _, _ => []
  | _ + 1, _, [] => []
  | steps + 1, modes, c :: t =>
    let (kind, length, modes') := nextLexeme modes (c :: t)
    ⟨kind, c :: t.take (length - 1)⟩ :: scanWith steps modes' (t.drop (length - 1))

/-- The lexemes of a script. -/
def scan (source : Text) : List Lexeme :=
  scanWith source.length [] source

theorem scanWith_text (steps : Nat) (modes : List Mode) (t : Text) (h : t.length ≤ steps) :
    (scanWith steps modes t).flatMap Lexeme.text = t := by
  induction steps generalizing modes t with
  | zero =>
    have : t = [] := List.length_eq_zero_iff.1 (Nat.le_zero.1 h)
    simp [scanWith, this]
  | succ steps ih =>
    cases t with
    | nil => rfl
    | cons c t =>
      have hlen : (t.drop ((nextLexeme modes (c :: t)).2.1 - 1)).length ≤ steps := by
        simp only [List.length_cons] at h
        simp only [List.length_drop]
        omega
      simp only [scanWith, List.flatMap_cons, ih _ _ hlen, List.cons_append, List.take_append_drop]

/-- The texts of the lexemes make up the script. -/
theorem scan_text (source : Text) : (scan source).flatMap Lexeme.text = source :=
  scanWith_text _ _ _ (Nat.le_refl _)

end Redeploy.Syntax
