import Redeploy.Migration.Traversal
import Redeploy.Proofs.Fallible
import Redeploy.Proofs.Syntax.Nodes
import Redeploy.Proofs.Text.Cut

set_option autoImplicit false

/-! # The walk and what it meets

Which calls a walk meets, and in which scopes, does not depend on how they are classified. `walk` lists
them, and `visit_eq` says that the migration classifies what `walk` lists, one call after the other.

The calls that are met are nodes of the tree, in order and without meeting (`inOrder_walk`), none of
them is empty (`lt_of_isDeprecatedCall`), and none stands in an import statement of the script
itself (`exists_statement_of_met`). -/

namespace Redeploy.Migration

open Syntax (Tree Kind)

/-- A call of the deprecated class that a walk meets, and the scope in which it does. -/
structure Met where
  /-- The call. -/
  call : Tree
  /-- What the names of the script stand for there. -/
  scope : Scope

mutual

/-- The calls that a walk over a node meets, and the scope behind the node. -/
def walk (source : Text) (inner : Bool) : Tree → Scope → List Met × Scope
  | .node kind role span children, s =>
    let t : Tree := .node kind role span children
    if isDeprecatedCall source s t then ([⟨t, s⟩], s)
    else if inner then walkAll source true children s
    else if isImport kind then ([], bindImports source t s)
    else
      let below := walkAll source (opensScope kind) children (bindBefore source t s)
      (below.1, bindAfter source t below.2)

/-- The calls that a walk over several nodes meets, and the scope behind them. -/
def walkAll (source : Text) (inner : Bool) : List Tree → Scope → List Met × Scope
  | [], s => ([], s)
  | t :: ts, s =>
    let first := walk source inner t s
    let rest := walkAll source inner ts first.2
    (first.1 ++ rest.1, rest.2)

end

/-- What becomes of a call that is met. -/
def classifyMet (setting : Setting) (script : Script) (m : Met) :
    Except MigrateError MigratedCall :=
  let site : CallSite := ⟨Script.lower script.source m.call, m.call.span⟩
  (site.classify ⟨script.file, m.scope, setting.resolver, setting.config⟩).map fun c =>
    ⟨m.call.text script.source, c⟩

/-- What has been found after some more calls have been met. -/
def Found.afterMet (f : Found) (setting : Setting) (script : Script) (r : List Met × Scope) :
    Except MigrateError Found :=
  (r.1.mapM (classifyMet setting script)).map fun calls => ⟨f.calls ++ calls, r.2⟩

section Visit

variable (setting : Setting) (script : Script)

theorem visitAll_eq_of_forall {ts : List Tree}
    (h : ∀ t ∈ ts, ∀ inner f, visit setting script inner t f =
      f.afterMet setting script (walk script.source inner t f.scope))
    (inner : Bool) (f : Found) : visitAll setting script inner ts f =
      f.afterMet setting script (walkAll script.source inner ts f.scope) := by
  induction ts generalizing f with
  | nil => simp [visitAll, walkAll, Found.afterMet, Except.map, pure, Except.pure]
  | cons t ts ih =>
    have hrest := ih fun u hu => h u (List.mem_cons_of_mem t hu)
    simp only [visitAll, walkAll, h t (List.mem_cons_self ..), Found.afterMet, List.mapM_append]
    cases (walk script.source inner t f.scope).1.mapM (classifyMet setting script) with
    | error e => rfl
    | ok calls =>
      simp only [Except.map, hrest, Found.afterMet, bind, Except.bind]
      cases List.mapM (classifyMet setting script)
          (walkAll script.source inner ts (walk script.source inner t f.scope).2).1 with
      | error e => rfl
      | ok calls' => simp [pure, Except.pure]

theorem recordCall_eq (t : Tree) (f : Found) : recordCall setting script t f =
    f.afterMet setting script ([⟨t, f.scope⟩], f.scope) := by
  simp only [recordCall, Found.afterMet, List.mapM_cons, List.mapM_nil, classifyMet]
  cases CallSite.classify ⟨Script.lower script.source t, t.span⟩
      ⟨script.file, f.scope, setting.resolver, setting.config⟩ <;> rfl

/-- A migration classifies the calls that a walk meets, one after the other. -/
theorem visit_eq (t : Tree) (inner : Bool) (f : Found) : visit setting script inner t f =
    f.afterMet setting script (walk script.source inner t f.scope) := by
  induction t using Tree.inductionOn generalizing inner f with
  | node k r s cs ih =>
    simp only [visit, walk]
    split
    · exact recordCall_eq setting script _ f
    · split
      · exact visitAll_eq_of_forall setting script ih true f
      · split
        · simp [Found.afterMet, Found.withScope, Except.map, pure, Except.pure]
        · rw [visitAll_eq_of_forall setting script ih]
          simp only [Found.afterMet, Found.withScope]
          cases List.mapM (classifyMet setting script) (walkAll script.source (opensScope k) cs
            (bindBefore script.source (.node k r s cs) f.scope)).1 <;> rfl

/-- What a migration finds in a script: the calls that the walk meets, each classified in the scope
    that it is met in, and the scope behind all statements. -/
theorem find_eq_ok_iff (f : Found) : find setting script = .ok f ↔
    List.Forall₂ (fun m call => classifyMet setting script m = .ok call)
      (walk script.source false script.root .empty).1 f.calls ∧
    f.scope = (walk script.source false script.root .empty).2 := by
  rw [find, visit_eq, Found.afterMet, ← mapM_eq_ok_iff]
  obtain ⟨calls, scope⟩ := f
  show Except.map _ (List.mapM _ (walk script.source false script.root .empty).1) = _ ↔ _
  cases List.mapM (classifyMet setting script) (walk script.source false script.root .empty).1 with
  | error e => simp [Except.map]
  | ok calls' => simp [Except.map, Found.nothing, eq_comm]

end Visit

/-! ## Where calls are met -/

variable {source : Text}

theorem mem_walkAll_of_forall {inner : Bool} {ts : List Tree} {s : Scope} {m : Met}
    (hm : m ∈ (walkAll source inner ts s).1) : ∃ t ∈ ts, ∃ s', m ∈ (walk source inner t s').1 := by
  induction ts generalizing s with
  | nil => simp [walkAll] at hm
  | cons t ts ih =>
    simp only [walkAll, List.mem_append] at hm
    rcases hm with hm | hm
    · exact ⟨t, List.mem_cons_self .., s, hm⟩
    · obtain ⟨u, hu, h⟩ := ih hm
      exact ⟨u, List.mem_cons_of_mem t hu, h⟩

/-- What a walk meets are calls of the deprecated class in the tree. -/
theorem mem_walk {inner : Bool} {t : Tree} {s : Scope} {m : Met}
    (hm : m ∈ (walk source inner t s).1) :
    m.call ∈ t.nodes ∧ isDeprecatedCall source m.scope m.call = true := by
  induction t using Tree.inductionOn generalizing inner s with
  | node k r sp cs ih =>
    have hbelow : ∀ {inner' s'}, m ∈ (walkAll source inner' cs s').1 →
        m.call ∈ (Syntax.Tree.node k r sp cs).nodes ∧ isDeprecatedCall source m.scope m.call = true := by
      intro inner' s' hm
      obtain ⟨c, hc, s'', hm⟩ := mem_walkAll_of_forall hm
      obtain ⟨hnode, hcall⟩ := ih c hc hm
      exact ⟨Tree.mem_nodes.2 (.inr ⟨c, hc, hnode⟩), hcall⟩
    simp only [walk] at hm
    split at hm
    · next hcall =>
      obtain rfl := List.mem_singleton.1 hm
      exact ⟨Tree.self_mem_nodes _, hcall⟩
    · split at hm
      · exact hbelow hm
      · split at hm
        · simp at hm
        · exact hbelow hm

theorem inOrder_walkAll_of_forall {inner : Bool} {a b : Nat} {ts : List Tree} {s : Scope}
    (horder : Tree.InOrder a b ts)
    (h : ∀ t ∈ ts, t.span.startByte ≤ t.span.endByte → ∀ s, Tree.InOrder t.span.startByte
      t.span.endByte ((walk source inner t s).1.map Met.call)) :
    Tree.InOrder a b ((walkAll source inner ts s).1.map Met.call) := by
  induction ts generalizing a s with
  | nil => exact horder
  | cons t ts ih =>
    obtain ⟨hstart, hspan, hrest⟩ := horder
    simp only [walkAll, List.map_append]
    rw [Tree.inOrder_append]
    exact ⟨t.span.endByte, (h t (List.mem_cons_self ..) hspan s).mono_left hstart,
      ih hrest fun u hu => h u (List.mem_cons_of_mem t hu)⟩

/-- What a walk meets is in order: each call ends before the next one begins. -/
theorem inOrder_walk {inner : Bool} {t : Tree} {s : Scope} (hnested : t.Nested)
    (hspan : t.span.startByte ≤ t.span.endByte) :
    Tree.InOrder t.span.startByte t.span.endByte ((walk source inner t s).1.map Met.call) := by
  induction t using Tree.inductionOn generalizing inner s with
  | node k r sp cs ih =>
    obtain ⟨horder, hchildren⟩ := Tree.nested_iff.1 hnested
    have hbelow : ∀ {inner' s'}, Tree.InOrder sp.startByte sp.endByte
        ((walkAll source inner' cs s').1.map Met.call) := fun {inner' s'} =>
      inOrder_walkAll_of_forall horder fun c hc hspan s => ih c hc (hchildren c hc) hspan
    simp only [walk]
    split
    · exact ⟨Nat.le_refl _, hspan, Nat.le_refl _⟩
    · split
      · exact hbelow
      · split
        · exact hspan
        · exact hbelow

/-! ## Deprecated calls -/

theorem kind_of_isDeprecatedCall {s : Scope} {t : Tree} (h : isDeprecatedCall source s t = true) :
    t.kind = .call := by
  rw [isDeprecatedCall, Bool.and_eq_true, beq_iff_eq] at h
  exact h.1

theorem mem_children_of_child? {t c : Tree} {r : Syntax.Role} (h : t.child? r = some c) :
    c ∈ t.children :=
  List.mem_of_find?_eq_some h

/-- A deprecated call has the name of its method in it. -/
theorem exists_method_of_isDeprecatedCall {s : Scope} {t : Tree}
    (h : isDeprecatedCall source s t = true) :
    ∃ x ∈ t.nodes, x.text source = Deprecated.method := by
  rw [isDeprecatedCall, Bool.and_eq_true] at h
  obtain ⟨-, h⟩ := h
  split at h
  · next function hfunction =>
    rw [Bool.and_eq_true] at h
    obtain ⟨-, h⟩ := h
    split at h
    · next method receiver hmethod hreceiver =>
      rw [Bool.and_eq_true, beq_iff_eq] at h
      have hmem : method ∈ function.nodes :=
        Tree.mem_nodes.2 (.inr ⟨method, mem_children_of_child? hmethod, method.self_mem_nodes⟩)
      exact ⟨method, Tree.mem_nodes.2 (.inr ⟨function, mem_children_of_child? hfunction, hmem⟩), h.1⟩
    · simp at h
  · simp at h

/-- A deprecated call is not empty. -/
theorem lt_of_isDeprecatedCall {s : Scope} {t : Tree} (hnested : t.Nested)
    (hspan : t.span.startByte ≤ t.span.endByte) (h : isDeprecatedCall source s t = true) :
    t.span.startByte < t.span.endByte := by
  obtain ⟨x, hx, htext⟩ := exists_method_of_isDeprecatedCall h
  have hslice : source.slice x.span.startByte x.span.endByte ≠ [] := by
    intro hnil
    rw [Tree.text, hnil] at htext
    exact absurd htext (by decide)
  have hlt := Text.lt_of_slice_ne_nil hslice
  have := hnested.bounds hspan hx
  omega

/-- In a script, a call is met in a statement that is no import statement. -/
theorem exists_statement_of_met {t : Tree} (hkind : t.kind = .module) {s : Scope} {m : Met}
    (hm : m ∈ (walk source false t s).1) :
    ∃ c ∈ t.children, isImport c.kind = false ∧ m.call ∈ c.nodes := by
  have hnot : ∀ {u : Tree} {s : Scope}, u.kind ≠ .call → isDeprecatedCall source s u = false := by
    intro u s hu
    exact Bool.eq_false_iff.2 fun h => hu (kind_of_isDeprecatedCall h)
  obtain ⟨k, r, sp, cs⟩ := t
  obtain rfl : k = .module := hkind
  simp only [walk, hnot (u := .node .module r sp cs) (show Kind.module ≠ Kind.call by decide),
    isImport] at hm
  obtain ⟨c, hc, s', hm⟩ := mem_walkAll_of_forall hm
  refine ⟨c, hc, ?_, (mem_walk hm).1⟩
  cases himport : isImport c.kind with
  | false => rfl
  | true =>
    -- an import statement is not looked into
    obtain ⟨k', r', sp', cs'⟩ := c
    have hcall : k' ≠ .call := by
      rintro rfl
      simp [isImport, Tree.kind] at himport
    have himport' : isImport k' = true := himport
    simp [walk, hnot (u := .node k' r' sp' cs') hcall, opensScope, himport'] at hm

end Redeploy.Migration
