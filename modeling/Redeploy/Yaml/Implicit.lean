import Redeploy.Yaml.Node
import Redeploy.Value

set_option autoImplicit false

/-! # What a scalar without quotes stands for

The word `null`, a truth value, a number, or else a text. Only the spellings of the format count:
`yes` is a text, and so is a number with a zero too many in front. -/

namespace Redeploy.Yaml.Implicit

/-- The spellings of no value. -/
def isNull (t : Text) : Bool :=
  ["null", "Null", "NULL", "~"].any fun s => s.toList == t

/-- The truth value that a text spells. -/
def bool? (t : Text) : Option Bool :=
  if ["true", "True", "TRUE"].any fun s => s.toList == t then some true
  else if ["false", "False", "FALSE"].any fun s => s.toList == t then some false
  else none

/-! ## Whole numbers -/

/-- Whether a text is digits, with or without a sign, that start with a superfluous zero. -/
def isZeroPadded (t : Text) : Bool :=
  let digits := match t with
    | '-' :: d => d
    | '+' :: d => d
    | d => d
  match digits with
  | '0' :: c :: d => (c :: d).all isAsciiDigit
  | _ => false

/-- The number of digits with a mark of their base in front, or of decimal digits. -/
def magnitude? : Text → Option Nat
  | '0' :: 'x' :: t => readNat? 16 t
  | '0' :: 'o' :: t => readNat? 8 t
  | '0' :: 'b' :: t => readNat? 2 t
  | t => readNat? 10 t

/-- The whole number that a text spells, with no limit to its size. -/
def int? (t : Text) : Option Int :=
  if isZeroPadded t then none
  else match t with
    | '-' :: d => (magnitude? d).map fun n => -(n : Int)
    | '+' :: d => (magnitude? d).map fun n => (n : Int)
    | d => (magnitude? d).map fun n => (n : Int)

/-- The natural number that a text spells: one without a minus sign. -/
def nat? (t : Text) : Option Nat :=
  if t.head? = some '-' then none else (int? t).map Int.toNat

/-- The bounds of the whole numbers that are taken for such. What lies beyond is no whole number,
    though it can be a fraction. -/
def isWhole (n : Int) : Bool :=
  minInt128 ≤ n && n ≤ maxNat128

/-! ## Fractions -/

/-- What a text that spells a fraction denotes. -/
inductive Fraction where
  /-- A number. -/
  | finite (d : Decimal)
  /-- Infinity, of either sign, or not a number. -/
  | special
  deriving DecidableEq, Repr

/-- The spellings of infinity and of what is not a number. -/
def isSpecial (t : Text) : Bool :=
  [".inf", ".Inf", ".INF", "+.inf", "+.Inf", "+.INF", "-.inf", "-.Inf", "-.INF", ".nan", ".NaN",
    ".NAN"].any fun s => s.toList == t

/-- The fraction that a text spells. A number too large for double precision is none. -/
def fraction? (t : Text) : Option Fraction :=
  if isSpecial t then some .special
  else (Decimal.read? t).bind fun d => if d.isFinite then some (.finite d) else none

/-! ## Values -/

/-- The value of a fraction. What is no number has no value. -/
def Fraction.value : Fraction → Value
  | .finite d => .decimal d
  | .special => .null

/-- The value of a whole number; `none` if it takes more than 64 bits. -/
def intValue? (n : Int) : Option Value :=
  if minInt64 ≤ n ∧ n ≤ maxNat64 then some (.int n) else none

/-- The whole number that a text spells, if it is small enough to be taken for one. -/
def wholeNumber? (t : Text) : Option Int :=
  (int? t).filter isWhole

/-- The value of a scalar without quotes; `none` for a whole number of more than 64 bits. -/
def value? (t : Text) : Option Value :=
  if t.isEmpty || isNull t then some .null
  else match bool? t with
    | some b => some (.bool b)
    | none =>
      match wholeNumber? t with
      | some n => intValue? n
      | none =>
        match if isZeroPadded t then none else fraction? t with
        | some f => some f.value
        | none => some (.text (String.ofList t))

/-- Whether a text would be taken for something else if it were written without quotes. -/
def isTaken (t : Text) : Bool :=
  t.isEmpty || isNull t || (bool? t).isSome || (wholeNumber? t).isSome || isZeroPadded t ||
    (fraction? t).isSome

end Redeploy.Yaml.Implicit
