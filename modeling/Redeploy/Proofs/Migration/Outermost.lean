import Redeploy.Proofs.Migration.Arrival
import Redeploy.Proofs.Syntax.Shapes

set_option autoImplicit false

/-! # All calls or none

The nodes that a walk comes to, each taken together with what is below it where the walk does not look
there, are all nodes of the tree in the order in which they are written (`flatMap_covered`). So the
deprecated calls among them are the outermost ones, from left to right, and each is to be classified in
the scope that the walk comes to it with.

A migration fails exactly if one of these calls cannot be classified, and with the error of the first
such call (`find_eq_error_iff`). There is nothing to migrate only if there is no such call, and a report
has all of them (`all_or_none`). That a script has been migrated does not mean that the new one can be
read (`unreadable_migrated_number`). -/

namespace Redeploy.Migration

open Syntax (Tree Kind)

/-! ## The order of a walk -/

namespace Arrival

/-- Whether the walk does not look below the node. -/
def isPassedOver (source : Text) (a : Arrival) : Bool :=
  a.isDeprecated source || (!a.inner && isImport a.node.kind)

/-- The node, and what is below it if the walk does not look there. -/
def covered (source : Text) (a : Arrival) : List Tree :=
  if a.isPassedOver source then a.node.nodes else [a.node]

end Arrival

variable {source : Text}

theorem flatMap_covered_arrivalsAll {inner : Bool} {ts : List Tree} {s : Scope}
    (h : ∀ t ∈ ts, ∀ s, (arrivals source inner t s).flatMap (Arrival.covered source) = t.nodes) :
    (arrivalsAll source inner ts s).flatMap (Arrival.covered source) = Tree.nodesAll ts := by
  induction ts generalizing s with
  | nil => rfl
  | cons t ts ih =>
    rw [arrivalsAll, List.flatMap_append, h t (List.mem_cons_self ..),
      ih fun u hu => h u (List.mem_cons_of_mem t hu), Tree.nodesAll_cons]

/-- A walk covers the nodes of a tree one after the other, in the order in which they are written. -/
theorem flatMap_covered (inner : Bool) (t : Tree) (s : Scope) :
    (arrivals source inner t s).flatMap (Arrival.covered source) = t.nodes := by
  induction t using Tree.inductionOn generalizing inner s with
  | node k r sp cs ih =>
    have hbelow : ∀ inner' s', (arrivalsAll source inner' cs s').flatMap (Arrival.covered source) =
        Tree.nodesAll cs :=
      fun inner' s' => flatMap_covered_arrivalsAll fun t ht s => ih t ht inner' s
    rw [arrivals_eq, List.flatMap_cons, Tree.nodes_eq, Arrival.covered, Arrival.isPassedOver,
      Arrival.isDeprecated]
    by_cases hcall : isDeprecatedCall source s (.node k r sp cs) = true
    · simp [hcall, Tree.nodes_eq]
    by_cases hinner : inner = true
    · simp [hcall, hinner, hbelow, Tree.children]
    by_cases himport : isImport k = true
    · simp [hcall, hinner, himport, Tree.nodes_eq, Tree.kind]
    · simp [hcall, hinner, himport, hbelow, Tree.kind, Tree.children]

/-! ## Outermost calls -/

/-- The calls of the deprecated class that are in no other one, from left to right. -/
def Script.outermost (script : Script) : List Arrival :=
  (Script.arrivals script).filter (Arrival.isDeprecated script.source)

/-- What a call is classified as, in the scope that the walk comes to it with. -/
def Arrival.classify (setting : Setting) (script : Script) (a : Arrival) :
    Except MigrateError ClassifiedCall :=
  CallSite.classify ⟨Script.lower script.source a.node, a.node.span⟩
    ⟨script.file, a.scope, setting.resolver, setting.config⟩

section

variable {setting : Setting} {script : Script} {a : Arrival}

theorem classifyMet_met (setting : Setting) (script : Script) (a : Arrival) :
    classifyMet setting script a.met =
      (a.classify setting script).map fun c => ⟨a.node.text script.source, c⟩ := rfl

theorem classifyMet_met_eq_error {e : MigrateError} :
    classifyMet setting script a.met = .error e ↔ a.classify setting script = .error e :=
  map_eq_error_iff

theorem classifyMet_met_eq_ok {call : MigratedCall} : classifyMet setting script a.met = .ok call ↔
    a.classify setting script = .ok call.classified ∧
      call.writtenText = a.node.text script.source := by
  obtain ⟨writtenText, classified⟩ := call
  rw [classifyMet_met]
  cases a.classify setting script with
  | error e => simp [Except.map]
  | ok c => simp [Except.map, eq_comm, and_comm]

theorem exists_classifyMet_met : (∃ call, classifyMet setting script a.met = .ok call) ↔
    ∃ c, a.classify setting script = .ok c := by
  constructor
  · rintro ⟨call, h⟩
    exact ⟨_, (classifyMet_met_eq_ok.1 h).1⟩
  · rintro ⟨c, h⟩
    exact ⟨⟨a.node.text script.source, c⟩, classifyMet_met_eq_ok.2 ⟨h, rfl⟩⟩

end

variable (setting : Setting) (script : Script)

/-- The walk meets the outermost calls. -/
theorem walk_eq_outermost : (walk script.source false script.root .empty).1 =
    (Script.outermost script).map Arrival.met :=
  met_eq false script.root .empty

/-- What a migration finds are the outermost calls, classified. -/
theorem forall₂_outermost {f : Found} (hfind : find setting script = .ok f) :
    List.Forall₂ (fun a call => a.classify setting script = .ok call.classified ∧
      call.writtenText = a.node.text script.source) (Script.outermost script) f.calls := by
  have hall := ((find_eq_ok_iff setting script f).1 hfind).1
  rw [walk_eq_outermost, List.forall₂_map_left_iff] at hall
  exact hall.imp fun _ _ => classifyMet_met_eq_ok.1

/-- A migration fails with the error of the first outermost call that cannot be classified. -/
theorem find_eq_error_iff (e : MigrateError) : find setting script = .error e ↔
    ∃ before a behind, Script.outermost script = before ++ a :: behind ∧
      (∀ b ∈ before, ∃ c, b.classify setting script = .ok c) ∧ a.classify setting script = .error e := by
  have hmap : find setting script = .error e ↔
      ((Script.outermost script).map Arrival.met).mapM (classifyMet setting script) = .error e := by
    rw [← walk_eq_outermost, find, visit_eq, Found.afterMet]
    exact map_eq_error_iff
  rw [hmap, List.mapM_map, mapM_eq_error_iff]
  constructor
  · rintro ⟨before, a, behind, heq, hbefore, ha⟩
    exact ⟨before, a, behind, heq, fun b hb => exists_classifyMet_met.1 (hbefore b hb),
      classifyMet_met_eq_error.1 ha⟩
  · rintro ⟨before, a, behind, heq, hbefore, ha⟩
    exact ⟨before, a, behind, heq, fun b hb => exists_classifyMet_met.2 (hbefore b hb),
      classifyMet_met_eq_error.2 ha⟩

/-- A migration fails exactly if some outermost call cannot be classified. -/
theorem exists_error_iff : (∃ e, find setting script = .error e) ↔
    ∃ a ∈ Script.outermost script, ∃ e, a.classify setting script = .error e := by
  constructor
  · rintro ⟨e, h⟩
    obtain ⟨before, a, behind, heq, -, ha⟩ := (find_eq_error_iff setting script e).1 h
    exact ⟨a, heq ▸ List.mem_append_right _ (List.mem_cons_self ..), e, ha⟩
  · rintro ⟨a, ha, e, he⟩
    cases hfind : find setting script with
    | error e' => exact ⟨e', rfl⟩
    | ok f =>
      obtain ⟨call, -, hcall, -⟩ := exists_of_forall₂ (forall₂_outermost setting script hfind) ha
      rw [he] at hcall
      simp at hcall

/-! ## Reports -/

variable {setting : Setting} {script : Script} {f : Found} {file : String}

theorem migrateScript_eq_ok {o : Outcome} : migrateScript setting script = .ok o ↔
    ∃ f, find setting script = .ok f ∧ ((f.calls = [] ∧ o = .nothingToMigrate) ∨
      (f.calls ≠ [] ∧ ∃ r, report script f = .ok r ∧ o = .migrated r)) := by
  unfold migrateScript
  cases find setting script with
  | error e => simp [bind, Except.bind]
  | ok f =>
    cases hcalls : f.calls with
    | nil => simp [bind, Except.bind, pure, Except.pure, hcalls, eq_comm]
    | cons call calls =>
      cases hreport : report script f <;>
        simp [bind, Except.bind, pure, Except.pure, hcalls, hreport, eq_comm]

/-- What comes of a migration that does not fail. -/
theorem migrateSource_eq_ok {o : Outcome} : migrateSource setting file source = .ok o ↔
    setting.config.validate = .ok () ∧ ∃ script, Script.read file source = .ok script ∧
      migrateScript setting script = .ok o := by
  unfold migrateSource
  cases setting.config.validate with
  | error e => simp [bind, Except.bind, Except.mapError]
  | ok u => cases Script.read file source <;> simp [bind, Except.bind, Except.mapError]

theorem forall₂_numbered {R : Arrival → CallReport → Prop} {as : List Arrival}
    {calls : List MigratedCall} (n : Nat)
    (h : List.Forall₂ (fun a call => ∀ i, R a (CallReport.ofCall i call)) as calls) :
    List.Forall₂ R as (CallReport.numbered n calls) := by
  induction h generalizing n with
  | nil => exact .nil
  | cons hcall _ ih => exact .cons (hcall n) (ih (n + 1))

/-- No call of a script is of the deprecated class where the walk comes to it, and the walk comes to all
    of them. -/
structure NoneMatches (script : Script) : Prop where
  /-- None is of the deprecated class. -/
  none : ∀ a ∈ Script.arrivals script, a.isDeprecated script.source = false
  /-- The calls that the walk comes to are the calls of the script. -/
  all : ((Script.arrivals script).map Arrival.node).filter (fun t => t.kind == .call) =
    script.root.nodes.filter fun t => t.kind == .call

theorem noneMatches_of_outermost (hread : Script.read file source = .ok script)
    (hnil : Script.outermost script = []) : NoneMatches script := by
  have hnone : ∀ a ∈ Script.arrivals script, a.isDeprecated script.source = false := by
    simpa [Script.outermost, List.filter_eq_nil_iff] using hnil
  refine ⟨hnone, ?_⟩
  rw [← flatMap_covered false script.root .empty, List.filter_flatMap, List.map_eq_flatMap,
    List.filter_flatMap]
  refine List.flatMap_congr fun a ha => ?_
  unfold Arrival.covered
  split
  · next hpassed =>
    -- what is passed over is an import statement, and there is no call in it
    rw [Arrival.isPassedOver, hnone a ha, Bool.false_or, Bool.and_eq_true] at hpassed
    have hno := Syntax.kind_ne_call_of_import (parse_of_read hread).1 a.node
      (node_mem_of_mem_arrivals ha) hpassed.2
    have hnodes : ∀ ts : List Tree, (∀ t ∈ ts, t ∈ a.node.nodes) →
        ts.filter (fun t => t.kind == .call) = [] := by
      intro ts hts
      rw [List.filter_eq_nil_iff]
      intro t ht hcall
      exact hno t (hts t ht) (by simpa using hcall)
    rw [hnodes _ fun t ht => ht, hnodes [a.node] (by simp [Tree.self_mem_nodes])]
  · rfl

/-- A report has every outermost call: as it is written, and the replacement that it is classified to
    get. -/
def Reported (setting : Setting) (script : Script) (r : Report) : Prop :=
  List.Forall₂ (fun a (call : CallReport) => ∃ c, a.classify setting script = .ok c ∧
    call.codeBefore = a.node.text script.source ∧ call.codeAfter = c.replacementText)
    (Script.outermost script) r.calls

theorem reported_of_report {r : Report} (hfind : find setting script = .ok f)
    (hreport : report script f = .ok r) : Reported setting script r := by
  have hcalls : r.calls = CallReport.numbered 1 f.calls := by
    obtain ⟨updated, -, rfl⟩ := exists_of_map_eq_ok hreport
    rfl
  rw [Reported, hcalls]
  refine forall₂_numbered 1 ((forall₂_outermost setting script hfind).imp ?_)
  rintro a call ⟨hclassify, htext⟩ i
  exact ⟨call.classified, hclassify, htext, rfl⟩

theorem outermost_eq_nil_iff (hfind : find setting script = .ok f) :
    Script.outermost script = [] ↔ f.calls = [] := by
  have hlength := (forall₂_outermost setting script hfind).length_eq
  rw [← List.length_eq_zero_iff, ← List.length_eq_zero_iff, hlength]

/-! ## All or none -/

/-- A migration of a script classifies all outermost calls, or fails with the error of one. -/
structure AllOrNone (setting : Setting) (script : Script) : Prop where
  /-- The walk covers the nodes of the script in the order in which they are written. -/
  order : (Script.arrivals script).flatMap (Arrival.covered script.source) = script.root.nodes
  /-- It fails if one of the calls cannot be classified, and only then. -/
  fails : (∃ e, find setting script = .error e) ↔
    ∃ a ∈ Script.outermost script, ∃ e, a.classify setting script = .error e
  /-- The error is that of the first one. -/
  first : ∀ e, find setting script = .error e ↔ ∃ before a behind,
    Script.outermost script = before ++ a :: behind ∧
      (∀ b ∈ before, ∃ c, b.classify setting script = .ok c) ∧ a.classify setting script = .error e

/-- Either all outermost calls of a script are migrated or none is, and then the error is that of the
    first one that cannot be. There is nothing to migrate exactly if the script has no such call. -/
theorem all_or_none (setting : Setting) (file : String) (source : Text) :
    (∀ script, AllOrNone setting script) ∧
    (migrateSource setting file source = .ok .nothingToMigrate ↔ setting.config.validate = .ok () ∧
      ∃ script, Script.read file source = .ok script ∧ NoneMatches script) ∧
    ∀ r, migrateSource setting file source = .ok (.migrated r) →
      ∃ script, Script.read file source = .ok script ∧ Script.outermost script ≠ [] ∧
        Reported setting script r := by
  refine ⟨fun script =>
    ⟨flatMap_covered .., exists_error_iff .., find_eq_error_iff setting script⟩, ?_, ?_⟩
  · rw [migrateSource_eq_ok]
    refine and_congr_right fun _ => exists_congr fun script => and_congr_right fun hread => ?_
    rw [migrateScript_eq_ok]
    constructor
    · rintro ⟨f, hfind, ⟨hnil, -⟩ | ⟨-, r, -, hr⟩⟩
      · exact noneMatches_of_outermost hread ((outermost_eq_nil_iff hfind).2 hnil)
      · simp at hr
    · intro hnone
      have hnil : Script.outermost script = [] := by
        simpa [Script.outermost, List.filter_eq_nil_iff] using hnone.none
      cases hfind : find setting script with
      | error e =>
        -- without calls there is none that could fail
        obtain ⟨a, ha, -⟩ := (exists_error_iff setting script).1 ⟨e, hfind⟩
        simp [hnil] at ha
      | ok f => exact ⟨f, rfl, .inl ⟨(outermost_eq_nil_iff hfind).1 hnil, rfl⟩⟩
  · intro r hmigrated
    obtain ⟨-, script, hread, hscript⟩ := migrateSource_eq_ok.1 hmigrated
    obtain ⟨f, hfind, ⟨-, hr⟩ | ⟨hcalls, r', hreport, hr⟩⟩ := migrateScript_eq_ok.1 hscript
    · simp at hr
    · obtain rfl : r = r' := by simpa using hr
      exact ⟨script, hread, fun hnil => hcalls ((outermost_eq_nil_iff hfind).1 hnil),
        reported_of_report hfind hreport⟩

/-- A call that can be classified in front of two that cannot: the error is that of the first of them,
    which is among the arguments of a further call. And a script of one call, which is reported. -/
theorem none_of_three_calls : (∃ script a b c,
    Script.read "flow.py" ("Deployment.build_from_flow(f)\n" ++
      "g(Deployment.build_from_flow(name=1))\nDeployment.build_from_flow()\n").toList = .ok script ∧
    Script.outermost script = [a, b, c] ∧
    find ⟨.offline, .standard⟩ script = .error (.malformedCall "flow.py" 2 2
      "no flow given; pass it as the first argument or as flow=")) ∧
    ∃ script r, migrateSource ⟨.offline, .standard⟩ "flow.py" "Deployment.build_from_flow(f)\n".toList =
      .ok (.migrated r) ∧ Reported ⟨.offline, .standard⟩ script r ∧ r.calls.length = 1 := by
  have hrun : (Script.read "flow.py" ("Deployment.build_from_flow(f)\n" ++
      "g(Deployment.build_from_flow(name=1))\nDeployment.build_from_flow()\n").toList).map
        (fun s => (Script.outermost s).map fun a =>
          (a.classify ⟨.offline, .standard⟩ s).map fun _ => ()) =
      .ok [.ok (), .error (.malformedCall "flow.py" 2 2
          "no flow given; pass it as the first argument or as flow="),
        .error (.malformedCall "flow.py" 3 0
          "no flow given; pass it as the first argument or as flow=")] := by
    decide +kernel
  have hrun' : (Script.read "flow.py" "Deployment.build_from_flow(f)\n".toList).bind (fun s =>
      (find ⟨.offline, .standard⟩ s).map fun f => (f.calls.length, f.edits s)) =
      .ok (1, [⟨0, 29, "f.serve()".toList⟩]) := by
    decide +kernel
  constructor
  · obtain ⟨script, hread, hcalls⟩ := exists_of_map_eq_ok hrun
    obtain ⟨a, _, houtermost, ha, hcalls⟩ := List.map_eq_cons_iff.1 hcalls
    obtain ⟨b, _, rfl, hb, hcalls⟩ := List.map_eq_cons_iff.1 hcalls
    obtain ⟨c, _, rfl, -, hcalls⟩ := List.map_eq_cons_iff.1 hcalls
    obtain rfl := List.map_eq_nil_iff.1 hcalls
    obtain ⟨ca, hca, -⟩ := exists_of_map_eq_ok ha
    have hfirst := ((all_or_none ⟨.offline, .standard⟩ "flow.py" []).1 script).first
    refine ⟨script, a, b, c, hread, houtermost, (hfirst _).2 ⟨[a], b, [c], houtermost, ?_, ?_⟩⟩
    · simp [hca]
    · exact map_eq_error_iff.1 hb
  · obtain ⟨script, f, hread, hfind, hg⟩ := exists_of_run hrun'
    obtain ⟨hlength, hedits⟩ := Prod.mk.injEq .. ▸ hg
    have hupdated : f.updatedSource script = .ok "f.serve()\n".toList := by
      rw [updatedSource_of_edits hedits (List.pairwise_singleton ..), (parse_of_read hread).2.1]
      decide +kernel
    have hreport : ∃ r, report script f = .ok r := ⟨_, by rw [report, hupdated]; rfl⟩
    obtain ⟨r, hr⟩ := hreport
    have hmigrated : migrateSource ⟨.offline, .standard⟩ "flow.py"
        "Deployment.build_from_flow(f)\n".toList = .ok (.migrated r) :=
      migrateSource_eq_ok.2 ⟨by decide +kernel, script, hread, migrateScript_eq_ok.2
        ⟨f, hfind, .inr ⟨List.ne_nil_of_length_eq_add_one hlength, r, hr, rfl⟩⟩⟩
    obtain ⟨script', hread', -, hreported⟩ :=
      (all_or_none ⟨.offline, .standard⟩ "flow.py" "Deployment.build_from_flow(f)\n".toList).2.2 r
        hmigrated
    obtain rfl : script = script' := Except.ok.inj (hread.symm.trans hread')
    refine ⟨script, r, hmigrated, hreported, ?_⟩
    rw [← hreported.length_eq, (forall₂_outermost _ _ hfind).length_eq, hlength]

/-- The migration of a call on a number in parentheses, where it is not a statement of its own, gives
    a script that cannot be read. -/
theorem unreadable_migrated_number : ∃ root report,
    Syntax.parse "x = g(Deployment.build_from_flow((1)))\n".toList = .ok root ∧
    migrateSource ⟨.offline, .standard⟩ "flow.py" "x = g(Deployment.build_from_flow((1)))\n".toList =
      .ok (.migrated report) ∧
    report.updatedSource = "x = g(1.serve())\n" ∧
    ∀ tree, Syntax.parse report.updatedSource.toList ≠ .ok tree := by
  have hrun : (migrateSource ⟨.offline, .standard⟩ "flow.py"
      "x = g(Deployment.build_from_flow((1)))\n".toList).map (fun
        | .migrated report => some report.updatedSource
        | .nothingToMigrate => none) = .ok (some "x = g(1.serve())\n") := by
    decide +kernel
  have hparse : (Syntax.parse "x = g(Deployment.build_from_flow((1)))\n".toList).map (fun _ => ()) =
      .ok () := by decide +kernel
  have hfault : (Syntax.parse "x = g(1.serve())\n".toList).toOption.isNone = true := by decide +kernel
  obtain ⟨root, hroot, -⟩ := exists_of_map_eq_ok hparse
  obtain ⟨outcome, hmigrate, hupdated⟩ := exists_of_map_eq_ok hrun
  cases outcome with
  | nothingToMigrate => simp at hupdated
  | migrated report =>
    have hsource : report.updatedSource = "x = g(1.serve())\n" := Option.some.inj hupdated
    exact ⟨root, report, hroot, hmigrate, hsource, hsource ▸ ne_ok_of_isNone_toOption hfault⟩

end Redeploy.Migration
