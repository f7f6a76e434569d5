import Redeploy.Table
import Redeploy.Text.Numeral

set_option autoImplicit false

/-! # Data values

What a data file says: the values that a JSON or YAML text denotes. An object keeps its fields in
the order in which they are written, repeated names included; `Table.distinct` drops the earlier
ones of a repeated name where only one may count. -/

namespace Redeploy

/-- A value of a data file. -/
inductive Value where
  /-- No value. -/
  | null
  /-- A truth value. -/
  | bool (b : Bool)
  /-- A whole number. -/
  | int (n : Int)
  /-- A decimal fraction. -/
  | decimal (d : Decimal)
  /-- A string. -/
  | text (s : String)
  /-- A sequence of values. -/
  | list (items : List Value)
  /-- Named values. -/
  | object (fields : List (String × Value))
  deriving Repr, Inhabited

/-- The fields of an object in the order in which they are written. -/
abbrev Fields := Table Value

namespace Value

mutual

/-- The value with only the last field of every repeated name, at every depth. -/
def distinct : Value → Value
  | .list items => .list (distinctItems items)
  | .object fields => .object (Table.distinct (distinctFields fields))
  | v => v

/-- Apply `distinct` to every item. -/
def distinctItems : List Value → List Value
  | [] => []
  | v :: vs => v.distinct :: distinctItems vs

/-- Apply `distinct` to the value of every field. -/
def distinctFields : List (String × Value) → List (String × Value)
  | [] => []
  | (name, v) :: rest => (name, v.distinct) :: distinctFields rest

end

/-- The fields of an object. -/
def asObject? : Value → Option Fields
  | .object fields => some fields
  | _ => none

end Value

end Redeploy
