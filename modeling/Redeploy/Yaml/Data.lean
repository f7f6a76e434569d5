import Redeploy.Yaml.Implicit

set_option autoImplicit false

/-! # Reading data from nodes

A reader asks a node for data of one type and refuses everything else. What is asked for decides
what a scalar means: as a text it is what it says, quoted or not, and as a number or truth value it
has to be without quotes. Where a mapping is asked for, nothing at all stands for an empty one. -/

namespace Redeploy.Yaml

/-! ## Tags -/

/-- The tags of the format itself. -/
def coreTag (name : String) : Text :=
  ("tag:yaml.org,2002:" ++ name).toList

/-- Whether a tag is one of the file's own, so that its node stands for no plain data. A tag whose
    bytes are no text is not. -/
def isLocalTag (tag : Text) : Bool :=
  tag.head? == some '!' &&
    (String.fromUTF8? ⟨(tag.map fun c => c.toNat.toUInt8).toArray⟩).isSome

/-- Whether a node may have this tag and be plain data. -/
def isDataTag (tag : Option Text) : Bool :=
  !tag.any isLocalTag

namespace Node

/-! ## Scalars -/

/-- The text of a scalar. -/
def text? : Node → Option String
  | .scalar text _ _ => some (String.ofList text)
  | _ => none

/-- The text of a scalar that may stand for a value of a type that has a tag: one without quotes,
    or one of kept lines that carries the tag. -/
def typedText? (tag : Text) : Node → Option Text
  | .scalar text .plain _ => some text
  | .scalar text .literal (some t) => if t = tag then some text else none
  | _ => none

/-- A truth value. -/
def bool? (n : Node) : Option Bool :=
  (n.typedText? (coreTag "bool")).bind Implicit.bool?

/-- A natural number below a bound of 32 bits. -/
def nat32? (n : Node) : Option Nat :=
  ((n.typedText? (coreTag "int")).bind Implicit.nat?).filter fun k => (k : Int) ≤ maxNat32

/-- Nothing where a scalar without quotes is empty or spells no value, and otherwise what the
    reader makes of the node. -/
def optional? {α : Type} (reader : Node → Option α) : Node → Option (Option α)
  | .scalar text .plain none =>
    if text.isEmpty || Implicit.isNull text then some none
    else (reader (.scalar text .plain none)).map some
  | .scalar text .plain (some tag) =>
    if tag = coreTag "null" then (if Implicit.isNull text then some none else none)
    else (reader (.scalar text .plain (some tag))).map some
  | n => (reader n).map some

/-! ## Sequences and mappings -/

/-- Whether the node is a scalar of no characters and without quotes. -/
def isAbsent : Node → Bool
  | .scalar [] .plain _ => true
  | _ => false

/-- The items of a sequence. -/
def items? : Node → Option (List Node)
  | .sequence items _ => some items
  | n => if n.isAbsent then some [] else none

/-- The entries of a mapping whose keys are texts. -/
def entries? : Node → Option (List (String × Node))
  | .mapping entries _ => entries.mapM fun e => e.1.text?.map fun key => (key, e.2)
  | n => if n.isAbsent then some [] else none

/-- The entries of a mapping of which all names are known and none is there twice. -/
def record? (known : List String) (n : Node) : Option (List (String × Node)) := do
  let entries ← n.entries?
  let names := entries.map (·.1)
  if names.all known.contains && names.Nodup then return entries
  none

/-! ## Values -/

/-- The value of a scalar with a tag. -/
def taggedValue? (tag text : Text) (style : Style) : Option Value :=
  if isLocalTag tag then none
  else if tag = coreTag "bool" then (Implicit.bool? text).map .bool
  else if tag = coreTag "int" then (Implicit.wholeNumber? text).bind Implicit.intValue?
  else if tag = coreTag "float" then (Implicit.fraction? text).map Implicit.Fraction.value
  else if tag = coreTag "null" then (if Implicit.isNull text then some .null else none)
  else if tag.head? = some '!' && style = .plain then Implicit.value? text
  else some (.text (String.ofList text))

/-- The value of a scalar. -/
def scalarValue? (text : Text) (style : Style) : Option Text → Option Value
  | some tag => taggedValue? tag text style
  | none => if style = .plain then Implicit.value? text else some (.text (String.ofList text))

mutual

/-- The value that a node denotes. -/
def value? : Node → Option Value
  | .scalar text style tag => scalarValue? text style tag
  | .sequence items tag =>
    if isDataTag tag then (valuesOf? items).map .list else none
  | .mapping entries tag =>
    if isDataTag tag then (fieldsOf? entries).map .object else none

/-- The values of nodes. -/
def valuesOf? : List Node → Option (List Value)
  | [] => some []
  | n :: ns => do
    let v ← n.value?
    return v :: (← valuesOf? ns)

/-- The fields of entries. -/
def fieldsOf? : List (Node × Node) → Option (List (String × Value))
  | [] => some []
  | (key, n) :: rest => do
    let name ← key.text?
    let v ← n.value?
    return (name, v) :: (← fieldsOf? rest)

end

end Node

end Redeploy.Yaml
