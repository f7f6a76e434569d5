import Redeploy.Text.Basic

set_option autoImplicit false

/-! # Numerals

Whole numbers as digits of a base, and decimal fractions as a digit string with a power of ten. A
fraction is kept as it is written and never rounded: the only question asked about its size is
whether it exceeds every double-precision number. -/

namespace Redeploy

/-! ## Whole numbers -/

/-- The value of a digit in bases up to 36; letters of both cases count from ten on. -/
def digitValue? (c : Char) : Option Nat :=
  let n := c.toNat
  if 48 ≤ n && n ≤ 57 then some (n - 48)
  else if 97 ≤ n && n ≤ 122 then some (n - 87)
  else if 65 ≤ n && n ≤ 90 then some (n - 55)
  else none

/-- Read digits of a base after a number already read. -/
def readDigits (base : Nat) : Nat → Text → Option Nat
  | value, [] => some value
  | value, c :: t =>
    match digitValue? c with
    | some d => if d < base then readDigits base (value * base + d) t else none
    | none => none

/-- The number that a nonempty text of digits denotes. -/
def readNat? (base : Nat) (t : Text) : Option Nat :=
  if t.isEmpty then none else readDigits base 0 t

/-- The number that digits with an optional sign denote. -/
def readInt? (base : Nat) : Text → Option Int
  | '-' :: t => (readNat? base t).map fun n => -(n : Int)
  | '+' :: t => (readNat? base t).map fun n => (n : Int)
  | t => (readNat? base t).map fun n => (n : Int)

/-- The smallest signed 64-bit number. -/
def minInt64 : Int := -9223372036854775808

/-- The largest signed 64-bit number. -/
def maxInt64 : Int := 9223372036854775807

/-- The largest unsigned 64-bit number. -/
def maxNat64 : Int := 18446744073709551615

/-- The smallest signed 128-bit number. -/
def minInt128 : Int := -170141183460469231731687303715884105728

/-- The largest unsigned 128-bit number. -/
def maxNat128 : Int := 340282366920938463463374607431768211455

/-- The largest unsigned 32-bit number. -/
def maxNat32 : Int := 4294967295

/-- A signed 64-bit number with an optional sign. -/
def readInt64? (t : Text) : Option Int :=
  (readInt? 10 t).filter fun n => minInt64 ≤ n && n ≤ maxInt64

/-! ## Decimal fractions -/

/-- A decimal fraction as it is written: a sign, digits, and a power of ten. -/
structure Decimal where
  /-- Whether a minus sign stands in front; zero has a sign too. -/
  negative : Bool
  /-- The digits without the decimal point. -/
  digits : Nat
  /-- The power of ten that the digits are multiplied by. -/
  exponent : Int
  deriving DecidableEq, Repr

namespace Decimal

/-- Half a step above the largest double-precision number: what reaches it rounds to infinity. -/
def overflowBound : Nat := Nat.pow 2 1024 - Nat.pow 2 970

/-- Whether the fraction rounds to a finite double-precision number. -/
def isFinite (d : Decimal) : Bool :=
  if d.digits = 0 then true
  else
    let magnitude : Int := (Nat.toDigits 10 d.digits).length + d.exponent
    if magnitude > 400 then false
    else if magnitude < 0 then true
    else if 0 ≤ d.exponent then d.digits * Nat.pow 10 d.exponent.toNat < overflowBound
    else d.digits < overflowBound * Nat.pow 10 (-d.exponent).toNat

/-- Read digits after the decimal point; each one lowers the power of ten. -/
def readFraction : Nat → Int → Text → Nat × Int × Text
  | digits, exponent, [] => (digits, exponent, [])
  | digits, exponent, c :: t =>
    if isAsciiDigit c then readFraction (digits * 10 + (c.toNat - 48)) (exponent - 1) t
    else (digits, exponent, c :: t)

/-- A decimal fraction: a sign, digits with an optional point among or beside them, and an optional
    exponent. At least one digit is required, and a digit in the exponent if there is one. -/
def read? (t : Text) : Option Decimal :=
  let (negative, t) : Bool × Text := match t with
    | '-' :: t => (true, t)
    | '+' :: t => (false, t)
    | t => (false, t)
  let whole := t.takeWhile isAsciiDigit
  let rest := t.dropWhile isAsciiDigit
  let (digits, exponent, rest, fractionDigits) : Nat × Int × Text × Nat := match rest with
    | '.' :: r =>
      let (digits, exponent, r') := readFraction ((readDigits 10 0 whole).getD 0) 0 r
      (digits, exponent, r', r.length - r'.length)
    | r => ((readDigits 10 0 whole).getD 0, 0, r, 0)
  if whole.length + fractionDigits = 0 then none
  else match rest with
    | [] => some ⟨negative, digits, exponent⟩
    | c :: r =>
      if c = 'e' ∨ c = 'E' then
        (readInt? 10 r).map fun e => ⟨negative, digits, exponent + e⟩
      else none

/-- The fraction in figures. A whole number keeps a zero after the point, so that it still reads as
    a fraction; very large and very small ones keep their power of ten. -/
def render (d : Decimal) : String :=
  let sign := if d.negative then "-" else ""
  let figures := Nat.toDigits 10 d.digits
  if d.digits = 0 then sign ++ "0.0"
  else if d.exponent > 25 ∨ d.exponent < -25 then
    sign ++ String.ofList figures ++ "e" ++ toString d.exponent
  else if 0 ≤ d.exponent then
    sign ++ String.ofList (figures ++ List.replicate d.exponent.toNat '0') ++ ".0"
  else
    let places := (-d.exponent).toNat
    let padded := List.replicate (places + 1 - figures.length) '0' ++ figures
    let split := padded.length - places
    sign ++ String.ofList (padded.take split) ++ "." ++ String.ofList (padded.drop split)

end Decimal

end Redeploy
