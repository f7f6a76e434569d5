import Redeploy.Block.Helper
import Redeploy.Block.Resolver
import Redeploy.Block.Slug

set_option autoImplicit false

/-! # Block catalogs

A catalog holds block documents under their slugs. It also tells the document of a block that a
script has at hand already, by following assignments and by reading two forms of calls: one that
loads a block by its name, and one that makes a new block with literal settings.

Following assignments is limited to a few steps, so that a variable assigned to itself comes to an
end. `LeadsTo` says where following leads without a limit; `direct?` is what is read off an
expression that is not a variable. -/

namespace Redeploy

/-- Block documents under their slugs, and the helper whose argument is a whole slug. -/
structure Catalog where
  /-- The documents, each slug once. -/
  blocks : Table Document
  /-- The helper that loads any block by its slug. -/
  helper : LoadHelper
  deriving Repr

namespace Catalog

/-- The catalog without blocks. -/
def empty : Catalog := ⟨[], .standard⟩

/-- Store a document under a slug. -/
def insert (c : Catalog) (slug : String) (d : Document) : Catalog :=
  { c with blocks := Table.insert slug d c.blocks }

/-- The document stored under a slug. -/
def find? (c : Catalog) (slug : String) : Option Document :=
  Table.get? slug c.blocks

/-- How many blocks are stored. -/
def size (c : Catalog) : Nat :=
  c.blocks.length

/-! ## Literal settings -/

/-- The value of an expression that is a literal constant. -/
def literalValue? : Expr → Option Value
  | .string value _ _ => some (.text value)
  | .verbatim text _ _ =>
    if text = "True" then some (.bool true)
    else if text = "False" then some (.bool false)
    else if text = "None" then some .null
    else (readInt64? text.toList).map .int
  | _ => none

/-- The document of a block that is made with keyword arguments: those whose values are literal. -/
def constructed : List (Keyword Expr) → Document → Document
  | [], d => d
  | kw :: rest, d =>
    match kw.arg, literalValue? kw.value with
    | some name, some value => constructed rest (Table.insert name value d)
    | _, _ => constructed rest d

/-- Whether a name is written like the name of a class. -/
def isClassName (name : String) : Bool :=
  name.toList.head?.any isUppercase

/-! ## Blocks at hand -/

/-- Whether a path stands for the load helper: by its import, or by its name if it has none. -/
def isHelper (c : Catalog) (path : String) (qualified : Option String) : Bool :=
  match qualified with
  | some full => full == c.helper.qualifiedName
  | none => path == c.helper.name

/-- The slug that a call of a loading method refers to. -/
def loadedSlug? (c : Catalog) (s : Scope) (path method blockName : String) : Option String :=
  let qualified := s.qualify? path
  if method = c.helper.method ∧ c.isHelper path qualified then some blockName
  else if method = "load" then some (Slug.ofClass (qualified.getD path) ++ "/" ++ blockName)
  else none

/-- The document of a block that an expression stands for, if the expression is not a variable. -/
def direct? (c : Catalog) (s : Scope) : Expr → Option Document
  | .call func args keywords _ =>
    match func with
    | .member value method _ =>
      if method = "load" ∨ method = c.helper.method then do
        let blockName ← (args.head?.or (Expr.lookupKeyword "name" keywords)).bind Expr.asString?
        let path ← value.dottedPath?
        let slug ← c.loadedSlug? s path method blockName
        c.find? slug
      else if isClassName method then some (constructed keywords []) else none
    | .name id _ => if isClassName id then some (constructed keywords []) else none
    | _ => none
  | _ => none

/-- Following assignments from a first expression reaches a second one in a number of steps. -/
inductive LeadsTo (s : Scope) : Nat → Expr → Expr → Prop where
  /-- An expression reaches itself. -/
  | refl (e : Expr) : LeadsTo s 0 e e
  /-- A variable reaches what its value reaches. -/
  | step {n : Nat} {id : String} {span : Option Span} {value e : Expr} :
      s.assignment? id = some value → LeadsTo s n value e → LeadsTo s (n + 1) (.name id span) e

/-- The document of a block that an expression stands for, found by following at most the given
    number of assignments. -/
def evaluate? (c : Catalog) (s : Scope) (hops : Nat) (e : Expr) : Option Document :=
  match e, hops with
  | .name _ _, 0 => none
  | .name id _, hops + 1 => (s.assignment? id).bind (c.evaluate? s hops)
  | e, _ => c.direct? s e

/-- How many assignments are followed. -/
def maxHops : Nat := 8

/-- The catalog as a source of block documents. -/
def resolver (c : Catalog) : Resolver where
  load slug := .ok (c.find? slug)
  resolveBound e s := c.evaluate? s maxHops e

end Catalog

end Redeploy
