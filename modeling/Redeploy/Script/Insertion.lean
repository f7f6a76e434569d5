import Redeploy.Script.Basic

set_option autoImplicit false

/-! # Where import lines go

New import lines go behind the head of a script: the line for the interpreter and the declaration of
the encoding, the description in front of everything else, and imports that change the language. -/

namespace Redeploy.Script

open Syntax (Tree Kind)

/-! ## The head lines -/

/-- Whether a line tells the encoding of the script: its first `coding` is followed by a colon or an
    equals sign. -/
def declaresCoding (line : Text) : Bool :=
  match Text.afterFirst? "coding".toList line with
  | some (c :: _) => c == ':' || c == '='
  | _ => false

/-- Whether a line is a comment that tells the encoding of the script. -/
def isCodingLine (line : Text) : Bool :=
  line.trimStart.head? == some '#' && declaresCoding line

/-- Whether a line is the one that names the interpreter. -/
def isInterpreterLine (line : Text) : Bool :=
  ['#', '!'].isPrefixOf line

/-- The offset behind the head lines that start at an offset; `first` if that is where the script
    starts. -/
def headEndFrom (source : Text) : (lines : Nat) → (first : Bool) → Nat → Nat
  | 0, _, offset => offset
  | lines + 1, first, offset =>
    let line := Text.firstLine (source.dropBytes offset)
    if (first && isInterpreterLine line) || isCodingLine line then
      headEndFrom source lines false (source.lineEnd offset)
    else offset

/-- The offset behind the head lines, of which there are at most two. -/
def headEnd (source : Text) : Nat :=
  headEndFrom source 2 true 0

/-! ## The head statements -/

/-- The description of a script: a string that is a statement of its own. -/
def isDescription (t : Tree) : Bool :=
  t.kind == .expressionStatement &&
    match t.children with
    | [c] => c.kind == .string
    | _ => false

/-- Whether a statement imports something that changes the language. -/
def isFutureImport (source : Text) (t : Tree) : Bool :=
  t.kind == .futureImportStatement ||
    (t.kind == .importFromStatement &&
      match t.children.find? fun c => c.kind == .dottedName with
      | some c => c.text source == "__future__"
      | none => false)

/-- The statements at the head: the description if it comes first, and the imports that change the
    language. -/
def headStatements (s : Script) : List Tree :=
  match s.statements with
  | [] => []
  | first :: rest =>
    if isDescription first || isFutureImport s.source first then
      first :: rest.takeWhile (isFutureImport s.source)
    else []

/-- The offset at which new import lines are inserted. -/
def insertionOffset (s : Script) : Nat :=
  let statementsEnd := match s.headStatements.getLast? with
    | some last => s.source.lineEnd last.span.endByte
    | none => 0
  max statementsEnd (headEnd s.source)

end Redeploy.Script
