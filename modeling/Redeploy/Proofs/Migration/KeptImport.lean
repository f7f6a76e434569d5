import Redeploy.Migration.Edits
import Redeploy.Proofs.Migration.DeadImport
import Redeploy.Proofs.Migration.Edits
import Redeploy.Proofs.Script.Head
import Redeploy.Proofs.Script.ImportNames
import Redeploy.Proofs.Syntax.ImportNodes

set_option autoImplicit false

/-! # What is left of an import

An import that loses some of its names is written anew on one line, with the other names as they stand in
the script. The new text is read as one import of these names, under the same aliases and in the same
order (`importsOf_rewritten`), unless a name has a line break of its own: such a break was legal between
the parentheses of the old statement only (`rewritten_unreadable`). -/

namespace Redeploy.Migration

open Syntax Redeploy.Script

section

variable {source : Text} {root : Tree} {t c : Tree}

/-! ## The names of a statement -/

/-- A name of an import as a script has it: the node of an imported name, over the lexemes of a run. -/
def IsName (source : Text) (c : Tree) : Prop :=
  ∃ (i : ImportName) (A ls B : List Lexeme), i.IsRead ∧ c = i.node ∧ IsRun ls ∧ scan source = A ++ (ls ++ B) ∧
    i.tokens = tokensFrom (pointAt (A.flatMap Lexeme.text)) ls

theorem isName_of_parse (h : parse source = .ok root) (ht : t ∈ root.children)
    (hkind : t.kind = .importFromStatement) (hc : c ∈ t.childrenIn .name) : IsName source c := by
  obtain ⟨ps, us, k, hps, hus, hreads⟩ := exists_reads_of_parse h
  have hmem : t ∈ Tree.nodesAll root.children.reverse :=
    Tree.mem_nodesAll.2 ⟨t, List.mem_reverse.2 ht, t.self_mem_nodes⟩
  obtain ⟨i, hi, rfl, hrow⟩ := hreads.exists_importName rfl rfl hmem hkind c hc
  have hwritten : ∀ o ∈ i.tokens, o.isLayout = false := by
    intro o ho
    rcases hi.nameRow.1 o ho with hword | ⟨hsymbol, -⟩
    · rw [Token.isLayout, hword]
      rfl
    · rw [Token.isLayout, hsymbol]
      rfl
  obtain ⟨A, ls, B, hscan, htokens, hfirst, hlast⟩ := hps.exists_row (hus ▸ hrow) hi.ne_nil hwritten
  exact ⟨i, A, ls, B, hi, rfl, hi.isRun hscan htokens hfirst hlast, hscan, htokens⟩

/-- A name without a line break of its own is spelled by its text. -/
theorem IsName.exists_text (h : IsName source c)
    (hline : ∀ l ∈ scan (c.text source).toList, l.kind ≠ .lineBreak) : ∃ n : NameText, n.IsSpelled ∧
      c.text source = String.ofList (n.lexemes.flatMap Lexeme.text) ∧
      pathAndAlias? source c = some (n.path, n.newName) := by
  obtain ⟨i, A, ls, B, hi, rfl, hrun, hscan, htokens⟩ := h
  have hsource : source = A.flatMap Lexeme.text ++ ls.flatMap Lexeme.text ++ B.flatMap Lexeme.text := by
    rw [← scan_text source, hscan]
    simp
  have htext : i.node.text source = String.ofList (ls.flatMap Lexeme.text) := by
    rw [hsource]
    refine text_of_span ?_
    rw [i.span_node, htokens, hrun.spanOf_tokensFrom, afterText_pointAt]
  rw [htext, String.toList_ofList, hrun.scan_eq] at hline
  obtain ⟨n, rfl, hn, hname⟩ := exists_isSpelled hi hrun hline htokens
  exact ⟨n, hn, htext, by rw [hsource, hname]⟩

/-- Names without line breaks are spelled by their texts. -/
theorem exists_texts {cs : List Tree} (h : ∀ c ∈ cs, IsName source c)
    (hline : ∀ c ∈ cs, ∀ l ∈ scan (c.text source).toList, l.kind ≠ .lineBreak) :
    ∃ ns : List NameText, (∀ n ∈ ns, n.IsSpelled) ∧
      cs.map (Tree.text source) = ns.map (fun n => String.ofList (n.lexemes.flatMap Lexeme.text)) ∧
      cs.filterMap (pathAndAlias? source) = ns.map fun n => (n.path, n.newName) := by
  induction cs with
  | nil => exact ⟨[], by simp, rfl, rfl⟩
  | cons c cs ih =>
    obtain ⟨hc, hcs⟩ := List.forall_mem_cons.1 h
    obtain ⟨hcline, hcsline⟩ := List.forall_mem_cons.1 hline
    obtain ⟨n, hn, htext, hname⟩ := hc.exists_text hcline
    obtain ⟨ns, hns, htexts, hnames⟩ := ih hcs hcsline
    refine ⟨n :: ns, List.forall_mem_cons.2 ⟨hn, hns⟩, ?_, ?_⟩
    · rw [List.map_cons, List.map_cons, htext, htexts]
    · rw [List.filterMap_cons_some hname, hnames, List.map_cons]

/-! ## The module -/

/-- The module of a class path is a path. -/
theorem exists_isPath_of_classPath {module name : String}
    (h : module ++ "." ++ name ∈ Deprecated.classPaths) : ∃ ls, IsPath ls ∧
      ls.flatMap Lexeme.text = module.toList ∧ ∀ l ∈ ls.head?, l.text ≠ "__future__".toList := by
  have hpieces : ∀ path ∈ Deprecated.classPaths,
      (Text.splitOn '.' path.toList).head? = some "prefect".toList ∧
      ∀ w ∈ Text.splitOn '.' path.toList, w ∈ ["prefect", "deployments", "Deployment"].map String.toList := by
    decide
  have hid : ∀ w ∈ ["prefect", "deployments", "Deployment"].map String.toList, IsIdentifier w := by
    refine List.forall_mem_cons.2 ⟨⟨⟨'p', rfl, by decide⟩, List.all_eq_true.1 (by decide)⟩, List.forall_mem_cons.2
      ⟨⟨⟨'d', rfl, by decide⟩, List.all_eq_true.1 (by decide)⟩, List.forall_mem_singleton.2
        ⟨⟨'D', rfl, by decide⟩, List.all_eq_true.1 (by decide)⟩⟩⟩
  have hsplit : Text.splitOn '.' (module ++ "." ++ name).toList =
      Text.splitOn '.' module.toList ++ Text.splitOn '.' name.toList := by
    rw [← Text.splitOn_append_cons]
    simp
  obtain ⟨hhead, hwords⟩ := hpieces _ h
  rw [hsplit] at hhead hwords
  obtain ⟨ls, hpath, htext, hfirst⟩ :=
    exists_isPath module.toList fun w hw => hid w (hwords w (List.mem_append_left _ hw))
  rw [List.head?_append_of_ne_nil _ (Text.splitOn_ne_nil '.' _), ← hfirst] at hhead
  refine ⟨ls, hpath, htext, fun l hl heq => ?_⟩
  rw [Option.mem_def.1 hl, Option.map_some, heq] at hhead
  exact absurd hhead (by decide)

/-! ## The new text -/

theorem rewritten_eq {module : String} {ls : List Lexeme} (hls : ls.flatMap Lexeme.text = module.toList)
    (n : NameText) (ns : List NameText) : Usage.rewritten module
      ((n :: ns).map fun n => String.ofList (n.lexemes.flatMap Lexeme.text)) =
        (importLexemes ls n ns).flatMap Lexeme.text := by
  have hnames : ", ".toList.intercalate ((n :: ns).map fun n => n.lexemes.flatMap Lexeme.text) =
      n.lexemes.flatMap Lexeme.text ++ (behindComma ns).flatMap Lexeme.text := by
    induction ns generalizing n with
    | nil => simp [List.intercalate, behindComma]
    | cons m ms ih =>
      have hrest := ih m
      rw [List.map_cons] at hrest
      rw [List.map_cons, List.map_cons, List.intercalate_cons_cons, hrest, behindComma_cons]
      simp [comma]
  rw [Usage.rewritten, String.toList_append, String.toList_intercalate, List.map_map]
  simp only [Function.comp_def, String.toList_ofList]
  rw [hnames]
  simp [importLexemes, hls]

/-! ## What is imported by the new text -/

/-- The imports of an import from a module. -/
theorem importsOf_importFrom {m : Tree} (hkind : t.kind = .importFromStatement)
    (hm : t.child? .moduleName = some m) : importsOf source t =
      ((t.childrenIn .name).filterMap (pathAndAlias? source)).map
        fun n => ⟨m.text source, some n.1, n.2⟩ := by
  rw [importsOf, hkind, hm]

/-- An import of the deprecated class whose name is in use nowhere. -/
def Usage.drops (u : Usage) (i : Import) : Bool :=
  Deprecated.classPaths.contains i.qualifiedName && !u.isUsed i.boundName

variable {u : Usage}

theorem importedAs?_node (source : Text) (i : ImportName) : importedAs? source i.node =
    (pathAndAlias? source i.node).map fun n => (n.1, n.2.getD n.1) := by
  obtain ⟨path, newName⟩ := i
  cases newName <;> rfl

/-- A name is dead if its import is dropped. -/
theorem isDead_eq {module : String} {n : String × Option String} (h : IsName u.script.source c)
    (hname : pathAndAlias? u.script.source c = some n) :
    u.isDead module c = u.drops ⟨module, some n.1, n.2⟩ := by
  obtain ⟨i, -, -, -, -, rfl, -⟩ := h
  rw [Usage.isDead, importedAs?_node, hname]
  obtain ⟨path, newName⟩ := n
  cases newName <;> rfl

theorem exists_pathAndAlias? (h : IsName source c) : ∃ n, pathAndAlias? source c = some n := by
  obtain ⟨⟨path, newName⟩, -, -, -, -, rfl, -⟩ := h
  cases newName
  · exact ⟨_, rfl⟩
  · exact ⟨_, rfl⟩

/-- The imports of the names that are not dead are the imports that are not dropped. -/
theorem filter_drops {module : String} {cs : List Tree} (h : ∀ c ∈ cs, IsName u.script.source c) :
    ((cs.filterMap (pathAndAlias? u.script.source)).map fun n => (⟨module, some n.1, n.2⟩ : Import)).filter
        (fun i => !u.drops i) =
      ((cs.filter fun c => !u.isDead module c).filterMap (pathAndAlias? u.script.source)).map
        fun n => ⟨module, some n.1, n.2⟩ := by
  induction cs with
  | nil => rfl
  | cons c cs ih =>
    obtain ⟨hc, hcs⟩ := List.forall_mem_cons.1 h
    obtain ⟨n, hn⟩ := exists_pathAndAlias? hc
    rw [List.filterMap_cons_some hn, List.map_cons, List.filter_cons, List.filter_cons, isDead_eq hc hn,
      ih hcs]
    split
    · rw [List.filterMap_cons_some hn, List.map_cons]
    · rfl

/-- An import that keeps some of its names is written anew as one import from the same module of these
    names, in the same order and under the same aliases, if none of them has a line break of its own. -/
theorem importsOf_rewritten {file : String} {e : Edit} (hread : Script.read file source = .ok u.script)
    (ht : t ∈ u.script.statements) (he : u.editOf? t = some e) (hkept : e.text ≠ [])
    (hline : ∀ m ∈ t.child? .moduleName, ∀ c ∈ t.childrenIn .name, u.isDead (m.text source) c = false →
      ∀ l ∈ scan (c.text source).toList, l.kind ≠ .lineBreak) :
    ∃ s t', parse e.text = .ok (.node .module none s [t']) ∧ t'.kind = .importFromStatement ∧
      importsOf e.text t' = (importsOf source t).filter fun i => !u.drops i := by
  obtain ⟨hparse, rfl, -⟩ := parse_of_read hread
  obtain ⟨hkind, m, hm, ⟨dead, hmem, hdead⟩, hedit⟩ := Usage.editOf?_eq_some he
  have hnames : ∀ c ∈ t.childrenIn .name, IsName u.script.source c := fun c hc =>
    isName_of_parse hparse ht hkind hc
  obtain rfl := hedit.resolve_left fun h => hkept (by rw [h.2])
  -- the module is that of a class path
  obtain ⟨ls, hpath, hmodule, hpresent⟩ : ∃ ls, IsPath ls ∧
      ls.flatMap Lexeme.text = (m.text u.script.source).toList ∧
      ∀ l ∈ ls.head?, l.text ≠ "__future__".toList := by
    obtain ⟨n, hn⟩ := exists_pathAndAlias? (hnames dead hmem)
    rw [isDead_eq (hnames dead hmem) hn, Usage.drops, Bool.and_eq_true] at hdead
    exact exists_isPath_of_classPath (List.contains_iff_mem.1 hdead.1)
  -- the names that are left are spelled by their texts
  have hne := Usage.kept_ne_nil_of_editOf? he hkept hm
  rw [importsOf_importFrom hkind hm, filter_drops hnames]
  generalize hleft : (t.childrenIn .name).filter (fun c => !u.isDead (m.text u.script.source) c) = left
    at hne ⊢
  have hleftNames : ∀ c ∈ left, IsName u.script.source c := fun c hc =>
    hnames c (List.mem_of_mem_filter (hleft ▸ hc))
  have hleftLine : ∀ c ∈ left, ∀ l ∈ scan (c.text u.script.source).toList, l.kind ≠ .lineBreak := by
    intro c hc
    obtain ⟨hc, hlive⟩ := List.mem_filter.1 (hleft ▸ hc)
    exact hline m hm c hc (by simpa using hlive)
  obtain ⟨ns, hns, htexts, hpaths⟩ := exists_texts hleftNames hleftLine
  obtain ⟨n, ns, rfl⟩ : ∃ n ns', ns = n :: ns' := by
    refine List.exists_cons_of_ne_nil ?_
    rintro rfl
    exact hne (List.map_eq_nil_iff.1 htexts)
  obtain ⟨hn, hns⟩ := List.forall_mem_cons.1 hns
  obtain ⟨s, t', hnew, hkind', himports'⟩ := parse_importFrom hpath hpresent hn hns
  rw [htexts, hpaths, rewritten_eq hmodule]
  refine ⟨s, t', hnew, hkind', ?_⟩
  rw [himports', hmodule, String.ofList_toList, List.map_map]
  rfl

/-- Names with comments between them and with a line that is continued within one of them. -/
theorem rewritten_parenthesized : ∃ script f t e s t',
    Script.read "flow.py" ("from prefect.deployments import (  # old\n    steps, Deployment,\n" ++
      "    run_deployment \\\n        as rd, # new\n)\nDeployment.build_from_flow(f)\n").toList = .ok script ∧
    find ⟨.offline, .standard⟩ script = .ok f ∧ t ∈ script.statements ∧
    (f.usage script).editOf? t = some e ∧ parse e.text = .ok (.node .module none s [t']) ∧
    t'.kind = .importFromStatement ∧ importsOf e.text t' =
      [⟨"prefect.deployments", some "steps", none⟩,
        ⟨"prefect.deployments", some "run_deployment", some "rd"⟩] := by
  have hrun : ((Script.read "flow.py" ("from prefect.deployments import (  # old\n    steps, Deployment,\n" ++
      "    run_deployment \\\n        as rd, # new\n)\nDeployment.build_from_flow(f)\n").toList).bind
        fun s => (find ⟨.offline, .standard⟩ s).map fun f => s.statements.map fun t =>
          (((f.usage s).editOf? t).map fun e => e.text.isEmpty,
            (t.childrenIn .name).all fun c =>
              (scan (c.text s.source).toList).all fun l => l.kind != .lineBreak,
            (importsOf s.source t).filter fun i => !(f.usage s).drops i)) =
      .ok [(some false, true, [⟨"prefect.deployments", some "steps", none⟩,
        ⟨"prefect.deployments", some "run_deployment", some "rd"⟩]), (none, true, [])] := by
    decide +kernel
  obtain ⟨script, f, hread, hfind, heq⟩ := exists_of_run hrun
  obtain ⟨t, ts, hstatements, ht, -⟩ := List.map_eq_cons_iff.1 heq
  obtain ⟨hedit, hline, himports⟩ : _ ∧ _ ∧ _ := by simpa only [Prod.mk.injEq] using ht
  obtain ⟨e, he, hkept⟩ := Option.map_eq_some_iff.1 hedit
  obtain ⟨-, hsource, -⟩ := parse_of_read hread
  have hmem : t ∈ script.statements := by simp [hstatements]
  simp only [List.all_eq_true, bne_iff_ne] at hline
  rw [hsource] at hline himports
  obtain ⟨s, t', hparse, hkind, hnew⟩ := importsOf_rewritten (u := f.usage script) hread hmem he
    (by simpa using hkept) fun _ _ c hc _ => hline c hc
  exact ⟨script, f, t, e, s, t', hread, hfind, hmem, he, hparse, hkind, hnew.trans himports⟩

/-- A line break between a name and its alias comes along without the parentheses that it stood in, and the
    new text cannot be read. -/
theorem rewritten_unreadable : ∃ script f t e,
    Script.read "flow.py" ("from prefect.deployments import (Deployment, run_deployment as\n    rd)\n" ++
      "Deployment.build_from_flow(f)\nrd(\"x\")\n").toList = .ok script ∧
    find ⟨.offline, .standard⟩ script = .ok f ∧ t ∈ script.statements ∧
    (f.usage script).editOf? t = some e ∧ e.text ≠ [] ∧ (∀ root, parse e.text ≠ .ok root) ∧
    importsOf script.source t = [⟨"prefect.deployments", some "Deployment", none⟩,
      ⟨"prefect.deployments", some "run_deployment", some "rd"⟩] := by
  have hrun : ((Script.read "flow.py"
      ("from prefect.deployments import (Deployment, run_deployment as\n    rd)\n" ++
      "Deployment.build_from_flow(f)\nrd(\"x\")\n").toList).bind fun s =>
        (find ⟨.offline, .standard⟩ s).map fun f => s.statements.map fun t =>
          (((f.usage s).editOf? t).map fun e => (e.text.isEmpty, (parse e.text).toOption.isNone),
            importsOf s.source t)) =
      .ok [(some (false, true), [⟨"prefect.deployments", some "Deployment", none⟩,
        ⟨"prefect.deployments", some "run_deployment", some "rd"⟩]), (none, []), (none, [])] := by
    decide +kernel
  obtain ⟨script, f, hread, hfind, heq⟩ := exists_of_run hrun
  obtain ⟨t, ts, hstatements, ht, -⟩ := List.map_eq_cons_iff.1 heq
  obtain ⟨hedit, himports⟩ : _ ∧ _ := by simpa only [Prod.mk.injEq] using ht
  obtain ⟨e, he, htext⟩ := Option.map_eq_some_iff.1 hedit
  obtain ⟨hkept, hunread⟩ : _ ∧ _ := by simpa only [Prod.mk.injEq] using htext
  exact ⟨script, f, t, e, hread, hfind, by simp [hstatements], he, by simpa using hkept,
    ne_ok_of_isNone_toOption hunread, himports⟩

end

end Redeploy.Migration
