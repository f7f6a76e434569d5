import Mathlib.Data.List.Pairwise
import Redeploy.Migration.Migrate
import Redeploy.Proofs.Call.Assembled
import Redeploy.Proofs.Migration.DeadImport
import Redeploy.Proofs.Migration.Walk
import Redeploy.Proofs.Script.Head
import Redeploy.Proofs.Text.Splice

set_option autoImplicit false

/-! # When the edits of a migration can be carried out

The edits of a migration fit the script, and calls never meet other calls. But an import that is deleted
takes everything up to the end of its line with it, and new imports are inserted at the end of a line
that something else may begin on. So the edits are apart exactly if nothing that is edited stands
behind a deleted import on its line, and nothing that goes on to a further line begins behind the last
head statement on its line (`apart_edits_iff`). Then the migrated script is the script with all edits
carried out at once, from left to right. -/

namespace Redeploy.Migration

open Syntax (Tree Kind)

/-! ## The edits of a migration -/

/-- What takes the place of a call is a method call, and takes up the span of the call. -/
theorem exists_of_classify {site : CallSite} {ctx : CallContext} {c : ClassifiedCall}
    (h : site.classify ctx = .ok c) : c.span = site.span ∧ ∃ receiver method keywords,
      c.replacement = (Expr.methodCall receiver method keywords).withSpan (some site.span) := by
  obtain ⟨-, -, -, -, subject, source, env, -, -, -, -, rfl⟩ := CallSite.classify_eq_ok_iff.1 h
  refine ⟨rfl, ?_⟩
  simp only [CallSite.assemble, CallSite.finalCall]
  cases env with
  | none => exact ⟨_, _, _, rfl⟩
  | some env => exact ⟨_, _, _, rfl⟩

theorem classify_of_classifyMet {setting : Setting} {script : Script} {m : Met} {call : MigratedCall}
    (h : classifyMet setting script m = .ok call) :
    CallSite.classify ⟨Script.lower script.source m.call, m.call.span⟩
      ⟨script.file, m.scope, setting.resolver, setting.config⟩ = .ok call.classified := by
  obtain ⟨c, hc, rfl⟩ := exists_of_map_eq_ok h
  exact hc

theorem span_of_classifyMet {setting : Setting} {script : Script} {m : Met} {call : MigratedCall}
    (h : classifyMet setting script m = .ok call) : call.classified.span = m.call.span :=
  (exists_of_classify (classify_of_classifyMet h)).1

section Edits

variable {setting : Setting} {script : Script} {f : Found}

/-- The calls that have been found are those that the walk meets. -/
theorem map_span_calls (hf : find setting script = .ok f) :
    f.calls.map (fun call => call.classified.span) =
      (walk script.source false script.root .empty).1.map fun m => m.call.span := by
  have hall := ((find_eq_ok_iff setting script f).1 hf).1
  generalize (walk script.source false script.root .empty).1 = met at hall ⊢
  generalize f.calls = calls at hall ⊢
  induction hall with
  | nil => rfl
  | cons hcall _ ih => rw [List.map_cons, List.map_cons, ih, span_of_classifyMet hcall]

theorem exists_met_of_mem_calls (hf : find setting script = .ok f) {call : MigratedCall}
    (hcall : call ∈ f.calls) : ∃ m ∈ (walk script.source false script.root .empty).1,
      classifyMet setting script m = .ok call :=
  exists_of_forall₂ ((find_eq_ok_iff setting script f).1 hf).1.flip hcall

/-! ## Where the edits are -/

theorem nested_of_mem_statements (hp : Syntax.parse script.source = .ok script.root) {t : Tree}
    (ht : t ∈ script.statements) : t.Nested :=
  (Tree.nested_iff.1 (Syntax.nested_of_parse hp)).2 t ht

/-- The edits that replace a part of the script: all but the insertion of imports. -/
def Found.replacingEdits (f : Found) (script : Script) : List Edit :=
  f.callEdits ++ (f.usage script).edits

/-- An edit of a call stands in a statement that is no import, and is not empty. -/
theorem exists_of_mem_callEdits (hp : Syntax.parse script.source = .ok script.root)
    (hf : find setting script = .ok f) {e : Edit} (he : e ∈ f.callEdits) :
    ∃ c ∈ script.statements, ∃ x ∈ c.nodes, isImport c.kind = false ∧ e.start = x.span.startByte ∧
      e.stop = x.span.endByte ∧ c.span.startByte ≤ e.start ∧ e.start < e.stop ∧
      e.stop ≤ c.span.endByte := by
  obtain ⟨call, hcall, rfl⟩ := List.mem_map.1 he
  obtain ⟨m, hm, hspan⟩ : ∃ m ∈ (walk script.source false script.root .empty).1,
      m.call.span = call.classified.span := by
    rw [← List.mem_map, ← map_span_calls hf]
    exact List.mem_map_of_mem hcall
  obtain ⟨c, hc, himport, hx⟩ := exists_statement_of_met (Syntax.kind_of_parse hp) hm
  have hnested := nested_of_mem_statements hp hc
  have hspan' := ((Syntax.inOrder_of_parse hp).bounds hc).2.1
  have hbounds := hnested.bounds hspan' hx
  have hlt := lt_of_isDeprecatedCall (hnested.of_mem_nodes hx) hbounds.2.1 (mem_walk hm).2
  rw [← hspan]
  exact ⟨c, hc, m.call, hx, himport, rfl, rfl, hbounds.1, hlt, hbounds.2.2⟩

/-- An edit of an import begins where its statement does. -/
theorem exists_of_mem_deadEdits {e : Edit} (he : e ∈ (f.usage script).edits) :
    ∃ t ∈ script.statements, (f.usage script).editOf? t = some e :=
  List.mem_filterMap.1 he

/-- Where an edit that replaces a part of the script stands: in a statement, with at most the rest of
    its line. -/
theorem exists_of_mem_replacingEdits (hp : Syntax.parse script.source = .ok script.root)
    (hf : find setting script = .ok f) {e : Edit} (he : e ∈ f.replacingEdits script) :
    ∃ c ∈ script.statements, c.span.startByte ≤ e.start ∧ e.start < c.span.endByte ∧
      e.stop ≤ script.source.lineEnd c.span.endByte ∧ e.Fits script.source ∧
      Script.headEnd script.source ≤ e.start := by
  rcases List.mem_append.1 he with he | he
  · obtain ⟨c, hc, x, hx, -, hstart, hstop, hle, hlt, hle'⟩ := exists_of_mem_callEdits hp hf he
    have hcut := Syntax.isCut_of_parse hp x (Tree.mem_nodes.2 (.inr ⟨c, hc, hx⟩))
    have hcut' := Syntax.isCut_of_parse hp c (Tree.mem_nodes.2 (.inr ⟨c, hc, c.self_mem_nodes⟩))
    have hhead := Script.headEnd_le_of_parse hp c hc x hx
    have hline := Text.le_lineEnd hcut'.2
    rw [← hstart, ← hstop] at hcut
    rw [← hstart] at hhead
    exact ⟨c, hc, hle, by omega, by omega, ⟨by omega, hcut⟩, hhead⟩
  · obtain ⟨t, ht, he⟩ := exists_of_mem_deadEdits he
    have hspan := ((Syntax.inOrder_of_parse hp).bounds ht).2.1
    have hcut := Syntax.isCut_of_parse hp t (Tree.mem_nodes.2 (.inr ⟨t, ht, t.self_mem_nodes⟩))
    have hlt := Usage.lt_of_editOf? (nested_of_mem_statements hp ht) hspan he
    have hhead := Script.headEnd_le_of_parse hp t ht t t.self_mem_nodes
    have hline := Text.le_lineEnd hcut.2
    have hstart := Usage.start_of_editOf? he
    have hstop : e.start ≤ e.stop ∧ e.stop ≤ script.source.lineEnd t.span.endByte ∧
        script.source.IsCut e.stop := by
      rcases Usage.stop_of_editOf? he with ⟨-, hstop⟩ | ⟨-, hstop⟩
      · rw [hstart, hstop]
        exact ⟨by show _ ≤ script.source.lineEnd _; omega, Nat.le_refl _, Text.isCut_lineEnd hcut.2⟩
      · rw [hstart, hstop]
        exact ⟨hspan, hline, hcut.2⟩
    refine ⟨t, ht, by omega, by omega, hstop.2.1, ⟨hstop.1, ?_, hstop.2.2⟩, by omega⟩
    rw [hstart]
    exact hcut.1

/-! ## When the edits are apart -/

/-- Nothing that is edited begins behind a deleted import on its line. -/
def Found.ClearBehindDeleted (f : Found) (script : Script) : Prop :=
  ∀ t ∈ script.statements, ∀ d, (f.usage script).editOf? t = some d → d.text = [] →
    ∀ e ∈ f.replacingEdits script, ¬ script.source.OnLineBehind t.span.endByte e.start

/-- If imports are inserted, nothing that is edited begins behind the last head statement on its line
    and goes on to a further line. -/
def Found.ClearBehindHead (f : Found) (script : Script) : Prop :=
  f.missingImports ≠ [] → ∀ last, script.headStatements.getLast? = some last →
    ∀ e ∈ f.replacingEdits script, script.source.OnLineBehind last.span.endByte e.start →
      e.stop ≤ script.source.lineEnd last.span.endByte

/-- The edits of the calls are apart. -/
theorem pairwise_callEdits (hp : Syntax.parse script.source = .ok script.root)
    (hf : find setting script = .ok f) : f.callEdits.Pairwise Edit.Apart := by
  have horder : ((walk script.source false script.root .empty).1.map Met.call).Pairwise
      fun t u => t.span.endByte ≤ u.span.startByte := by
    refine (inOrder_walk (Syntax.nested_of_parse hp) ?_).pairwise
    rw [Syntax.startByte_of_parse hp]
    exact Nat.zero_le _
  have hspans : (f.calls.map fun call => call.classified.span).Pairwise
      fun s s' => s.endByte ≤ s'.startByte := by
    rw [map_span_calls hf, List.pairwise_map]
    rwa [List.pairwise_map] at horder
  rw [List.pairwise_map] at hspans
  rw [Found.callEdits, List.pairwise_map]
  exact hspans.imp fun h => .inl h

/-- An edit of a statement is in front of an edit further behind, if that is not on the line of a
    deleted import. -/
theorem precedes_of_clear (hclear : f.ClearBehindDeleted script) {t : Tree}
    (ht : t ∈ script.statements) {d e : Edit} (hd : (f.usage script).editOf? t = some d)
    (he : e ∈ f.replacingEdits script) (hle : t.span.endByte ≤ e.start) : d.Precedes e := by
  show d.stop ≤ e.start
  rcases Usage.stop_of_editOf? hd with ⟨hnil, hstop⟩ | ⟨-, hstop⟩
  · have := hclear t ht d hd hnil e he
    rw [hstop]
    by_contra hlt
    exact this ⟨hle, Nat.lt_of_not_le hlt⟩
  · rw [hstop]
    exact hle

theorem pairwise_deadEdits (hp : Syntax.parse script.source = .ok script.root)
    (hclear : f.ClearBehindDeleted script) : (f.usage script).edits.Pairwise Edit.Apart := by
  rw [Usage.edits, List.pairwise_filterMap]
  refine (Syntax.inOrder_of_parse hp).pairwise.imp_of_mem fun ht hu h d hd e he => ?_
  refine .inl (precedes_of_clear hclear ht hd (List.mem_append_right _ ?_) ?_)
  · exact List.mem_filterMap.2 ⟨_, hu, he⟩
  · rw [Usage.start_of_editOf? he]
    exact h

theorem apart_callEdits_deadEdits (hp : Syntax.parse script.source = .ok script.root)
    (hf : find setting script = .ok f) (hclear : f.ClearBehindDeleted script) :
    ∀ e ∈ f.callEdits, ∀ d ∈ (f.usage script).edits, e.Apart d := by
  intro e he d hd
  obtain ⟨c, hc, x, -, himport, -, -, hstart, -, hstop⟩ := exists_of_mem_callEdits hp hf he
  obtain ⟨t, ht, hd⟩ := exists_of_mem_deadEdits hd
  rcases (Syntax.inOrder_of_parse hp).eq_or_le hc ht with rfl | hle | hle
  · -- a call is no part of an import statement
    rw [Usage.kind_of_editOf? hd] at himport
    simp [isImport] at himport
  · left
    show e.stop ≤ d.start
    rw [Usage.start_of_editOf? hd]
    omega
  · exact .inr (precedes_of_clear hclear ht hd (List.mem_append_left _ he) (by omega))

/-- The insertion of imports is apart from everything else that is edited. -/
theorem apart_insertion (hp : Syntax.parse script.source = .ok script.root)
    (hf : find setting script = .ok f) (hclear : f.ClearBehindHead script)
    (hmissing : f.missingImports ≠ []) {e : Edit} (he : e ∈ f.replacingEdits script) :
    e.stop ≤ script.insertionOffset ∨ script.insertionOffset ≤ e.start := by
  obtain ⟨c, hc, hstart, hlt, hstop, -, hhead⟩ := exists_of_mem_replacingEdits hp hf he
  cases hlast : script.headStatements.getLast? with
  | none =>
    rw [Script.insertionOffset_of_none hlast]
    exact .inr hhead
  | some last =>
    rw [Script.insertionOffset_of_getLast? hp hlast]
    have hmem := Script.mem_statements_of_mem_headStatements (List.mem_of_getLast? hlast)
    by_cases hline : script.source.OnLineBehind last.span.endByte e.start
    · exact .inl (hclear hmissing last hlast e he hline)
    · by_cases hle : last.span.endByte ≤ e.start
      · right
        by_contra hlt
        exact hline ⟨hle, Nat.lt_of_not_le hlt⟩
      · -- the edit is in the last head statement or in front of it
        left
        have hcle : c.span.endByte ≤ last.span.endByte := by
          have hbounds := ((Syntax.inOrder_of_parse hp).bounds hmem).2.1
          rcases (Syntax.inOrder_of_parse hp).eq_or_le hc hmem with rfl | h | h <;> omega
        have hcut : ∀ t ∈ script.statements, script.source.IsCut t.span.endByte := fun t ht =>
          (Syntax.isCut_of_parse hp t (Tree.mem_nodes.2 (.inr ⟨t, ht, t.self_mem_nodes⟩))).2
        exact Nat.le_trans hstop (Text.lineEnd_mono (hcut c hc) (hcut last hmem) hcle)

/-- The edits are apart if those that replace something are, and the insertion is apart from those. -/
theorem pairwise_edits_iff : (f.edits script).Pairwise Edit.Apart ↔
    (f.replacingEdits script).Pairwise Edit.Apart ∧
      (f.missingImports ≠ [] → ∀ e ∈ f.replacingEdits script,
        e.stop ≤ script.insertionOffset ∨ script.insertionOffset ≤ e.start) := by
  unfold Found.edits Found.replacingEdits Found.importEdits
  split
  · next hnil => simp [hnil]
  · next missing hcons =>
    have hne : f.missingImports ≠ [] := hcons
    simp only [List.pairwise_append, List.pairwise_singleton, List.mem_append, List.mem_singleton,
      Edit.Apart, Edit.Precedes]
    constructor
    · rintro ⟨⟨hcalls, -, hcall⟩, hdead, hboth⟩
      refine ⟨⟨hcalls, hdead, fun e he d hd => hboth e (.inl he) d hd⟩, fun _ e he => ?_⟩
      rcases he with he | he
      · exact hcall e he _ rfl
      · exact (hboth _ (.inr rfl) e he).symm
    · rintro ⟨⟨hcalls, hdead, hboth⟩, hinsertion⟩
      refine ⟨⟨hcalls, trivial, fun e he i hi => ?_⟩, hdead, fun e he d hd => ?_⟩
      · rw [hi]
        exact hinsertion hne e (.inl he)
      · rcases he with he | rfl
        · exact hboth e he d hd
        · exact (hinsertion hne d (.inr hd)).symm

/-- The edits of a migration are apart exactly if nothing that is edited stands behind a deleted import
    on its line, and nothing that goes on to a further line begins behind the last head statement,
    where imports are inserted. -/
theorem apart_edits_iff (hp : Syntax.parse script.source = .ok script.root)
    (hf : find setting script = .ok f) : (f.edits script).Pairwise Edit.Apart ↔
      f.ClearBehindDeleted script ∧ f.ClearBehindHead script := by
  rw [pairwise_edits_iff]
  constructor
  · rintro ⟨hreplacing, hinsertion⟩
    refine ⟨?_, ?_⟩
    · rintro t ht d hd hnil e he ⟨hle, hlt⟩
      have hstart := Usage.start_of_editOf? hd
      have hspan := ((Syntax.inOrder_of_parse hp).bounds ht).2.1
      have hnonempty := Usage.lt_of_editOf? (nested_of_mem_statements hp ht) hspan hd
      have hstop : d.stop = script.source.lineEnd t.span.endByte := by
        rcases Usage.stop_of_editOf? hd with ⟨-, hstop⟩ | ⟨hne, -⟩
        · exact hstop
        · exact absurd hnil hne
      have hne : d ≠ e := by
        rintro rfl
        omega
      have hmem : d ∈ f.replacingEdits script :=
        List.mem_append_right _ (List.mem_filterMap.2 ⟨t, ht, hd⟩)
      obtain ⟨-, -, -, -, -, ⟨hfits, -⟩, -⟩ := exists_of_mem_replacingEdits hp hf he
      have hsymm : Std.Symm Edit.Apart := ⟨fun _ _ => Edit.Apart.symm⟩
      rcases hreplacing.forall hmem he hne with h | h <;> unfold Edit.Precedes at h <;> omega
    · rintro hmissing last hlast e he ⟨-, hlt⟩
      have := hinsertion hmissing e he
      rw [Script.insertionOffset_of_getLast? hp hlast] at this
      omega
  · rintro ⟨hdeleted, hhead⟩
    refine ⟨?_, fun hmissing e he => apart_insertion hp hf hhead hmissing he⟩
    exact List.pairwise_append.2 ⟨pairwise_callEdits hp hf, pairwise_deadEdits hp hdeleted,
      apart_callEdits_deadEdits hp hf hdeleted⟩

theorem fits_edits (hp : Syntax.parse script.source = .ok script.root)
    (hf : find setting script = .ok f) : ∀ e ∈ f.edits script, e.Fits script.source := by
  have hreplacing : ∀ e ∈ f.replacingEdits script, e.Fits script.source := by
    intro e he
    obtain ⟨-, -, -, -, -, hfits, -⟩ := exists_of_mem_replacingEdits hp hf he
    exact hfits
  intro e he
  unfold Found.edits at he
  rcases List.mem_append.1 he with he | he
  · rcases List.mem_append.1 he with he | he
    · exact hreplacing e (List.mem_append_left _ he)
    · unfold Found.importEdits at he
      split at he
      · simp at he
      · obtain rfl := List.mem_singleton.1 he
        have hcut := Script.isCut_insertionOffset hp
        exact ⟨Nat.le_refl _, hcut, hcut⟩
  · exact hreplacing e (List.mem_append_right _ he)

end Edits

/-! ## The migrated script -/

/-- The edits of every migration fit the script. They are apart exactly if nothing that is edited stands
    behind a deleted import on its line and, where imports are inserted, nothing that goes on to a
    further line begins behind the last head statement on its line. The migrated script is then the
    script with all edits carried out at once, in the order in which they stand in it. -/
theorem updatedSource_eq_substitute {setting : Setting} {file : String} {source : Text}
    {script : Script} {f : Found} (hread : Script.read file source = .ok script)
    (hfind : find setting script = .ok f) :
    (∀ e ∈ f.edits script, e.Fits source) ∧
      ((f.edits script).Pairwise Edit.Apart ↔
        f.ClearBehindDeleted script ∧ f.ClearBehindHead script) ∧
      (f.ClearBehindDeleted script → f.ClearBehindHead script →
        ∃ es w, es.Perm (f.edits script) ∧ es.Pairwise Edit.Precedes ∧
          substitute source es = some w ∧ f.updatedSource script = .ok w) := by
  obtain ⟨hp, rfl, -⟩ := parse_of_read hread
  have hfits := fits_edits hp hfind
  have hapart := apart_edits_iff hp hfind
  refine ⟨hfits, hapart, fun hdeleted hhead => ?_⟩
  obtain ⟨es, w, hperm, horder, hsubstitute, hsplice⟩ :=
    exists_substitute_of_apart hfits (hapart.2 ⟨hdeleted, hhead⟩)
  refine ⟨es, w, hperm, horder, hsubstitute, ?_⟩
  rw [Found.updatedSource, hsplice]

/-- What is computed from a script and what has been found in it is computed from some script and some
    findings. -/
theorem exists_of_run {setting : Setting} {file : String} {source : Text} {α : Type}
    {g : Script → Found → α} {a : α}
    (h : ((Script.read file source).bind fun s => (find setting s).map (g s)) = .ok a) :
    ∃ script f, Script.read file source = .ok script ∧ find setting script = .ok f ∧
      g script f = a := by
  cases hread : Script.read file source with
  | error e => simp [hread, Except.bind] at h
  | ok script =>
    cases hfind : find setting script with
    | error e => simp [hread, hfind, Except.bind, Except.map] at h
    | ok f =>
      simp only [hread, hfind, Except.bind, Except.map, Except.ok.injEq] at h
      exact ⟨script, f, rfl, hfind, h⟩

/-- The new text of a script whose edits stand in the list from the back to the front. -/
theorem updatedSource_of_edits {f : Found} {script : Script} {edits : List Edit}
    (hedits : f.edits script = edits) (horder : edits.Pairwise fun a b => a.backToFront b = true) :
    f.updatedSource script =
      (Edit.carryOutAll? edits script.source).elim (.error .conflictingEdits) .ok := by
  rw [Found.updatedSource, hedits, splice_of_pairwise horder]
  cases Edit.carryOutAll? edits script.source <;> rfl

/-- A call on the line below an import: both edits are carried out. -/
theorem substitute_call_below_import : ∃ script f es w,
    Script.read "flow.py" ("from prefect.deployments import Deployment\n" ++
      "d = Deployment.build_from_flow(f)\n").toList = .ok script ∧
    find ⟨.offline, .standard⟩ script = .ok f ∧ es.Perm (f.edits script) ∧
    es.Pairwise Edit.Precedes ∧ substitute script.source es = some w ∧
    f.updatedSource script = .ok w := by
  have hrun : ((Script.read "flow.py" ("from prefect.deployments import Deployment\n" ++
      "d = Deployment.build_from_flow(f)\n").toList).bind fun s =>
        (find ⟨.offline, .standard⟩ s).map fun f => f.edits s) =
      .ok [⟨47, 76, "f.serve()".toList⟩, ⟨0, 43, []⟩] := by decide +kernel
  obtain ⟨script, f, hread, hfind, hedits⟩ := exists_of_run hrun
  obtain ⟨-, hiff, hspliced⟩ := updatedSource_eq_substitute hread hfind
  have hclear := hiff.1 (by rw [hedits]; simp [Edit.Apart, Edit.Precedes])
  obtain ⟨es, w, h⟩ := hspliced hclear.1 hclear.2
  obtain ⟨-, hsource, -⟩ := parse_of_read hread
  exact ⟨script, f, es, w, hread, hfind, by rwa [hsource]⟩

/-- A call that shares its line with the import before it: deleting the import takes the call with it,
    and the edits cannot be carried out. -/
theorem conflict_call_behind_import : ∃ script f,
    Script.read "flow.py" ("from prefect.deployments import Deployment; " ++
      "Deployment.build_from_flow(f)\n").toList = .ok script ∧
    find ⟨.offline, .standard⟩ script = .ok f ∧ ¬ (f.edits script).Pairwise Edit.Apart ∧
    f.updatedSource script = .error .conflictingEdits := by
  have hrun : ((Script.read "flow.py" ("from prefect.deployments import Deployment; " ++
      "Deployment.build_from_flow(f)\n").toList).bind fun s =>
        (find ⟨.offline, .standard⟩ s).map fun f => f.edits s) =
      .ok [⟨44, 73, "f.serve()".toList⟩, ⟨0, 74, []⟩] := by decide +kernel
  obtain ⟨script, f, hread, hfind, hedits⟩ := exists_of_run hrun
  obtain ⟨-, hsource, -⟩ := parse_of_read hread
  refine ⟨script, f, hread, hfind, ?_, ?_⟩
  · rw [hedits]
    simp [Edit.Apart, Edit.Precedes]
  · rw [updatedSource_of_edits hedits (by simp [Edit.backToFront]), hsource]
    decide +kernel

end Redeploy.Migration
