import Redeploy.Block.Catalog
import Redeploy.Proofs.Binding.LastBinding
import Redeploy.Proofs.Migration.Heeded

set_option autoImplicit false

/-! # Whether the load helper is in effect

Migrated calls load blocks by the name of a helper class, which the script has to import. Whether a line
that imports it is added is told by the last binding of the name in the whole script
(`mem_missingImports_iff`). The line is put behind the head of the script, on whose last line a name
can be bound already. What the name stands for at a call is told by the bindings in front of the call
alone (`qualify?_arrival_iff`). So an import that stands behind the call keeps the line away without
being in effect at the call (`helper_imported_late`). -/

namespace Redeploy.Migration

/-! ## The decision, and what it is about -/

theorem scope_of_find {setting : Setting} {script : Script} {f : Found}
    (hfind : find setting script = .ok f) :
    f.scope = Binding.replay ((heededIn script).map Heeded.binding) := by
  rw [((find_eq_ok_iff setting script f).1 hfind).2, scope_walk]
  rfl

theorem satisfies_replay_iff {history : List Binding} {r : RequiredImport} :
    (Binding.replay history).satisfies r = true ↔
      ∃ i, Binding.IsLast r.name history (.imported i) ∧ r.isSatisfiedBy i = true := by
  simp only [← Binding.importFor?_replay_eq_some_iff, Scope.satisfies]
  cases (Binding.replay history).importFor? r.name <;> simp

/-- A line is added for an import that is needed, unless the last binding of its name in the script is
    an import that satisfies it. -/
theorem mem_missingImports_iff {setting : Setting} {script : Script} {f : Found}
    (hfind : find setting script = .ok f) {r : RequiredImport} :
    r ∈ f.missingImports ↔ r ∈ f.requiredImports ∧
      ¬ ∃ i, Binding.IsLast r.name ((heededIn script).map Heeded.binding) (.imported i) ∧
        r.isSatisfiedBy i = true := by
  rw [Found.missingImports, List.mem_filter, scope_of_find hfind, ← satisfies_replay_iff]
  simp

/-- Where a walk over a script comes to a node, a path stands for what the bindings in front of the node
    make of it. -/
theorem qualify?_arrival_iff {file : String} {source : Text} {script : Script}
    (hread : Script.read file source = .ok script) {a : Arrival} (ha : a ∈ Script.arrivals script) :
    ∃ past future, Cut script.source .empty (heededIn script) a past future ∧ ∀ path full,
      a.scope.qualify? path = some full ↔ Binding.Expands (past.map Heeded.binding) path full := by
  have hnested := Syntax.nested_of_parse (parse_of_read hread).1
  obtain ⟨past, future, hcut, hscope⟩ := exists_past hnested ha
  refine ⟨past, future, hcut, fun path full => ?_⟩
  rw [hscope, Binding.qualify?_replay_eq_some_iff]

/-- Where a walk over a script comes to a node, the helper is in effect. -/
def HelperInEffect (h : LoadHelper) (s : Scope) : Prop :=
  s.qualify? h.name = some h.qualifiedName

/-- The settings of the script below: one block that code can be fetched from. -/
def oneBlock : Setting :=
  ⟨(Catalog.empty.insert "github/my-repo" []).resolver, .standard⟩

/-- In a script that imports the helper behind the call, no line is added, and in the migrated script
    the name of the helper in the replaced call stands for nothing. -/
theorem helper_imported_late : ∃ script f updated script',
    Script.read "flow.py" ("Deployment.build_from_flow(f, storage=\"github/my-repo\")\n" ++
      "from prefect.blocks.core import Block\n").toList = .ok script ∧
    find oneBlock script = .ok f ∧ f.updatedSource script = .ok updated ∧
    Script.read "flow.py" updated = .ok script' ∧
    updated = ("f.from_source(source=Block.load(\"github/my-repo\"), entrypoint=\"flow.py:f\")" ++
      ".serve()\nfrom prefect.blocks.core import Block\n").toList ∧
    ∃ a ∈ Script.arrivals script', a.node.kind = .identifier ∧
      a.node.text script'.source = "Block" ∧ ¬ HelperInEffect .standard a.scope := by
  have hrun : ((Script.read "flow.py"
      ("Deployment.build_from_flow(f, storage=\"github/my-repo\")\n" ++
        "from prefect.blocks.core import Block\n").toList).bind fun s =>
        (find oneBlock s).map fun f => f.edits s) =
      .ok [⟨0, 55, ("f.from_source(source=Block.load(\"github/my-repo\"), " ++
        "entrypoint=\"flow.py:f\").serve()").toList⟩] := by decide +kernel
  have hrun' : (Script.read "flow.py"
      ("f.from_source(source=Block.load(\"github/my-repo\"), entrypoint=\"flow.py:f\")" ++
        ".serve()\nfrom prefect.blocks.core import Block\n").toList).map (fun s =>
        (Script.arrivals s).any fun a => a.node.kind == .identifier &&
          a.node.text s.source == "Block" && a.scope.qualify? "Block" == none) = .ok true := by
    decide +kernel
  obtain ⟨script, f, hread, hfind, hedits⟩ := exists_of_run hrun
  obtain ⟨script', hread', hany⟩ := exists_of_map_eq_ok hrun'
  obtain ⟨-, hsource, -⟩ := parse_of_read hread
  refine ⟨script, f, _, script', hread, hfind, ?_, hread', rfl, ?_⟩
  · rw [updatedSource_of_edits hedits (List.pairwise_singleton ..), hsource]
    decide +kernel
  · simp only [List.any_eq_true, Bool.and_eq_true, beq_iff_eq] at hany
    obtain ⟨a, ha, ⟨hkind, htext⟩, hnone⟩ := hany
    have hunbound : a.scope.qualify? LoadHelper.standard.name = none := hnone
    exact ⟨a, ha, hkind, htext, fun heffect => Option.some_ne_none _ (heffect.symm.trans hunbound)⟩

end Redeploy.Migration
