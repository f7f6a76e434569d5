import Redeploy.Proofs.Migration.Edits
import Redeploy.Proofs.Text.Pieces

set_option autoImplicit false

/-! # Names that are looked for in replacements

An import stays while a replacement mentions the name that it binds. The search takes a replacement
apart at all characters that `isNameChar` does not take for parts of names. So it finds a name exactly if
the name has no such character and stands in the replacement as a word of its own
(`mentions_eq_true_iff`). A name with a combining mark is never found, and its import is taken out
although the migrated script uses the name (`used_combining_name`). -/

namespace Redeploy.Migration

theorem mentions_eq_true_iff {text name : String} : mentions text name = true ↔
    (∀ c ∈ name.toList, isNameChar c = true) ∧ ∃ a b, text.toList = a ++ name.toList ++ b ∧
      (∀ c ∈ a.getLast?, isNameChar c = false) ∧ ∀ c ∈ b.head?, isNameChar c = false := by
  rw [mentions, List.any_eq_true]
  simp only [beq_iff_eq, exists_eq_right, Text.mem_splitWhere_iff, Bool.not_eq_true',
    Bool.not_eq_false']

/-- A name with a combining mark: its import is taken out although the script that is left uses the
    name, which nothing imports any more. -/
theorem used_combining_name : ∃ script f script',
    Script.read "flow.py" ("from prefect.deployments import Deployment as De\u0301\n" ++
      "De\u0301.build_from_flow(f, description=De\u0301.x)\n").toList = .ok script ∧
    find ⟨.offline, .standard⟩ script = .ok f ∧ (f.usage script).edits = [⟨0, 51, []⟩] ∧
    f.updatedSource script = .ok "f.serve(description=De\u0301.x)\n".toList ∧
    Script.read "flow.py" "f.serve(description=De\u0301.x)\n".toList = .ok script' ∧
    (∃ x ∈ script'.root.nodes, x.kind = .identifier ∧ x.text script'.source = "De\u0301") ∧
    ∀ y ∈ script'.root.nodes, isImport y.kind = false := by
  have hrun : ((Script.read "flow.py" ("from prefect.deployments import Deployment as De\u0301\n" ++
      "De\u0301.build_from_flow(f, description=De\u0301.x)\n").toList).bind fun s =>
        (find ⟨.offline, .standard⟩ s).map fun f => ((f.usage s).edits, f.edits s)) =
      .ok ([⟨0, 51, []⟩],
        [⟨51, 94, "f.serve(description=De\u0301.x)".toList⟩, ⟨0, 51, []⟩]) := by decide +kernel
  have hreread : (Script.read "flow.py" "f.serve(description=De\u0301.x)\n".toList).map (fun s =>
      ((s.root.nodes.any fun x => x.kind == .identifier && x.text s.source == "De\u0301"),
        s.root.nodes.all fun y => !isImport y.kind)) = .ok (true, true) := by decide +kernel
  obtain ⟨script, f, hread, hfind, heq⟩ := exists_of_run hrun
  obtain ⟨hdead, hedits⟩ := Prod.mk.injEq .. ▸ heq
  obtain ⟨script', hread', heq'⟩ := exists_of_map_eq_ok hreread
  obtain ⟨hused, hnone⟩ := Prod.mk.injEq .. ▸ heq'
  obtain ⟨-, hsource, -⟩ := parse_of_read hread
  refine ⟨script, f, script', hread, hfind, hdead, ?_, hread', ?_, ?_⟩
  · rw [updatedSource_of_edits hedits (by simp [Edit.backToFront]), hsource]
    decide +kernel
  · simpa only [List.any_eq_true, Bool.and_eq_true, beq_iff_eq] using hused
  · simpa only [List.all_eq_true, Bool.not_eq_true'] using hnone

end Redeploy.Migration
