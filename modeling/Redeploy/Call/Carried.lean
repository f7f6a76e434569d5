import Redeploy.Call.Key
import Redeploy.Expr.Basic

set_option autoImplicit false

/-! # Carried arguments

The arguments of a deprecated call that its replacement takes over: at most one value for every key.
Since the arguments are a function of the key, no key can occur twice and none can be out of
order. -/

namespace Redeploy

/-- The values of the keys that are taken over. -/
structure Carried where
  /-- The value of a key. -/
  get? : CallKey → Option Expr

namespace Carried

/-- No value for any key. -/
def empty : Carried := ⟨fun _ => none⟩

/-- Set a key to a value. -/
def insert (c : Carried) (key : CallKey) (value : Expr) : Carried :=
  ⟨fun k => if k = key then some value else c.get? k⟩

/-- Whether a key has a value. -/
def contains (c : Carried) (key : CallKey) : Bool :=
  (c.get? key).isSome

/-- The keys that have a value, in order. -/
def keys (c : Carried) : List CallKey :=
  CallKey.all.filter c.contains

/-- The keys and their values, in order. -/
def entries (c : Carried) : List (CallKey × Expr) :=
  CallKey.all.filterMap fun key => (c.get? key).map fun value => (key, value)

/-- How many keys have a value. -/
def size (c : Carried) : Nat :=
  c.keys.length

/-- Whether no key has a value. -/
def isEmpty (c : Carried) : Bool :=
  c.keys.isEmpty

/-- The values of the keys that a call without a work pool has. -/
def withoutDeployOnly (c : Carried) : Carried :=
  ⟨fun key => if key.isDeployOnly then none else c.get? key⟩

/-- The values as keyword arguments, in order. -/
def toKeywords (c : Carried) : List (Keyword Expr) :=
  c.entries.map fun entry => ⟨some entry.1.keyword, entry.2⟩

/-! ## Collecting -/

/-- The name of a keyword argument, unless it is spread or in the list of names to skip. -/
def consideredName? (skip : List String) (kw : Keyword Expr) : Option String :=
  kw.arg.filter fun name => !skip.contains name

/-- Take one keyword argument over, if its name is a key. -/
def collectOne (skip : List String) (c : Carried) (kw : Keyword Expr) : Carried :=
  match consideredName? skip kw with
  | some name =>
    match CallKey.ofKeyword? name with
    | some key => c.insert key kw.value
    | none => c
  | none => c

/-- The last value of `infra_overrides` in a list of keyword arguments. -/
def formerJobVariables? (skip : List String) (keywords : List (Keyword Expr)) : Option Expr :=
  (keywords.reverse.find? fun kw => consideredName? skip kw == some formerJobVariables).map (·.value)

/-- The values that a list of keyword arguments has for the keys; of a repeated name the last value
    counts. A value of `infra_overrides` is the value of `job_variables`, whether or not there is
    another one. -/
def collect (keywords : List (Keyword Expr)) (skip : List String) : Carried :=
  let direct := keywords.foldl (collectOne skip) empty
  match formerJobVariables? skip keywords with
  | some value => direct.insert .jobVariables value
  | none => direct

end Carried

end Redeploy
