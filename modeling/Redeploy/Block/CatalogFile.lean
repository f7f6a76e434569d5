import Redeploy.Block.Catalog
import Redeploy.File
import Redeploy.Json.Reader
import Redeploy.Yaml.Data

set_option autoImplicit false

/-! # Catalog files

A catalog file has one entry, `blocks`, which lists documents under their slugs. It may be left
out. Files are JSON if their extension says so, and YAML if not. -/

namespace Redeploy.Catalog

/-- The first slug in order that is not of the form of a slug. -/
def firstBadSlug? (blocks : Table Document) : Option String :=
  ((Table.names blocks).mergeSort fun a b => decide (a ≤ b)).find? fun slug => !Slug.isWellFormed slug

/-- The catalog of the blocks of a file. -/
def ofBlocks (blocks : Table Document) : Except ConfigError Catalog :=
  match firstBadSlug? blocks with
  | some slug =>
    .error (.invalidField ("blocks." ++ slug) "block slugs look like '<block-type>/<name>'")
  | none => .ok { blocks := Table.distinct blocks, helper := .standard }

/-! ## JSON -/

/-- The documents of an object whose values are all objects. -/
def documents? : Fields → Option (Table Document)
  | [] => some []
  | (slug, v) :: rest => do
    let d ← v.distinct.asObject?
    return (slug, d) :: (← documents? rest)

/-- The blocks of a file: an object with at most the one entry, or a list of the entry's value. -/
def blocksOfJson? : Value → Option (Table Document)
  | .object [] => some []
  | .object [(name, v)] => if name = "blocks" then v.asObject?.bind documents? else none
  | .list [] => some []
  | .list [v] => v.asObject?.bind documents?
  | _ => none

/-- The catalog that a JSON text describes. -/
def ofJson (t : Text) : Except ConfigError Catalog :=
  match (Json.parse? t).bind blocksOfJson? with
  | some blocks => ofBlocks blocks
  | none => .error .badJson

/-! ## YAML -/

/-- The document that a node describes. -/
def documentOfNode? (n : Yaml.Node) : Option Document := do
  let entries ← n.entries?
  let fields ← entries.mapM fun (name, n) => n.value?.map fun v => (name, v.distinct)
  return Table.distinct fields

/-- The blocks that a node describes as a catalog file. -/
def blocksOfNode? (n : Yaml.Node) : Option (Table Document) := do
  let fields ← n.record? ["blocks"]
  match Table.get? "blocks" fields with
  | some blocks =>
    let entries ← blocks.entries?
    entries.mapM fun (slug, n) => (documentOfNode? n).map fun d => (slug, d)
  | none => return []

/-- The catalog that a YAML text describes. -/
def ofYaml (t : Text) : Except ConfigError Catalog :=
  match (Yaml.parse? t).bind blocksOfNode? with
  | some blocks => ofBlocks blocks
  | none => .error .badYaml

/-! ## Files -/

/-- The catalog that a file describes. -/
def ofFile (f : File) : Except ConfigError Catalog :=
  match f.text? with
  | some t => if f.hasExtension "json" then ofJson t else ofYaml t
  | none => .error .unreadable

end Redeploy.Catalog
