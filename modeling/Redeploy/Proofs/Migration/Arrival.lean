import Mathlib.Data.List.Nodup
import Redeploy.Proofs.Migration.Edits

set_option autoImplicit false

/-! # Where a walk arrives

The nodes that a walk comes to, each with the scope in which it does. The calls that are met are those
among them that are calls of the deprecated class there (`met_eq`), and what the walk does not come to
lies below such a call or below an import statement of the script itself (`accounts_arrivals`). So no
deprecated call is missed and none is found twice, wherever it stands in the tree (`find_complete`). -/

namespace Redeploy.Migration

open Syntax (Tree Kind)

/-- A node that a walk comes to. -/
structure Arrival where
  /-- The node. -/
  node : Tree
  /-- What the names of the script stand for there. -/
  scope : Scope
  /-- Whether the node is within a function, class or lambda. -/
  inner : Bool

namespace Arrival

/-- Whether the node is a call of the deprecated class where the walk comes to it. -/
def isDeprecated (source : Text) (a : Arrival) : Bool :=
  isDeprecatedCall source a.scope a.node

/-- The call that is met. -/
def met (a : Arrival) : Met := ⟨a.node, a.scope⟩

end Arrival

mutual

/-- The nodes that a walk over a node comes to, in the order in which it does. -/
def arrivals (source : Text) (inner : Bool) : Tree → Scope → List Arrival
  | .node kind role span children, s =>
    let t : Tree := .node kind role span children
    ⟨t, s, inner⟩ ::
      if isDeprecatedCall source s t then []
      else if inner then arrivalsAll source true children s
      else if isImport kind then []
      else arrivalsAll source (opensScope kind) children (bindBefore source t s)

/-- The nodes that a walk over several nodes comes to. -/
def arrivalsAll (source : Text) (inner : Bool) : List Tree → Scope → List Arrival
  | [], _ => []
  | t :: ts, s =>
    arrivals source inner t s ++ arrivalsAll source inner ts (walk source inner t s).2

end

/-- The nodes that a walk over a whole script comes to. -/
def Script.arrivals (script : Script) : List Arrival :=
  Migration.arrivals script.source false script.root .empty

variable {source : Text}

theorem arrivals_eq (source : Text) (inner : Bool) (t : Tree) (s : Scope) :
    arrivals source inner t s = ⟨t, s, inner⟩ ::
      if isDeprecatedCall source s t then []
      else if inner then arrivalsAll source true t.children s
      else if isImport t.kind then []
      else arrivalsAll source (opensScope t.kind) t.children (bindBefore source t s) := by
  cases t
  rfl

theorem self_mem_arrivals (source : Text) (inner : Bool) (t : Tree) (s : Scope) :
    ⟨t, s, inner⟩ ∈ arrivals source inner t s := by
  rw [arrivals_eq]
  exact List.mem_cons_self ..

/-- What a walk over several nodes comes to, it comes to in a walk over one of them. -/
theorem exists_of_mem_arrivalsAll {inner : Bool} {ts : List Tree} {s : Scope} {a : Arrival}
    (ha : a ∈ arrivalsAll source inner ts s) :
    ∃ t ∈ ts, ∃ s', a ∈ arrivals source inner t s' ∧
      ∀ b ∈ arrivals source inner t s', b ∈ arrivalsAll source inner ts s := by
  induction ts generalizing s with
  | nil => simp [arrivalsAll] at ha
  | cons t ts ih =>
    rw [arrivalsAll, List.mem_append] at ha
    rcases ha with ha | ha
    · exact ⟨t, List.mem_cons_self .., s, ha, fun b hb => List.mem_append_left _ hb⟩
    · obtain ⟨u, hu, s', ha, hall⟩ := ih ha
      exact ⟨u, List.mem_cons_of_mem t hu, s', ha, fun b hb => List.mem_append_right _ (hall b hb)⟩

/-- A walk over several nodes is a walk over each of them. -/
theorem exists_arrivals_subset (source : Text) (inner : Bool) {ts : List Tree} (s : Scope) {t : Tree} (ht : t ∈ ts) :
    ∃ s', ∀ a ∈ arrivals source inner t s', a ∈ arrivalsAll source inner ts s := by
  induction ts generalizing s with
  | nil => simp at ht
  | cons u ts ih =>
    rcases List.mem_cons.1 ht with rfl | ht
    · exact ⟨s, fun a ha => List.mem_append_left _ ha⟩
    · obtain ⟨s', hall⟩ := ih (walk source inner u s).2 ht
      exact ⟨s', fun a ha => List.mem_append_right _ (hall a ha)⟩

/-- The calls that a walk meets are the deprecated ones among the nodes that it comes to. -/
theorem met_eq (inner : Bool) (t : Tree) (s : Scope) : (walk source inner t s).1 =
    ((arrivals source inner t s).filter (Arrival.isDeprecated source)).map Arrival.met := by
  induction t using Tree.inductionOn generalizing inner s with
  | node k r sp cs ih =>
    have hall : ∀ (ts : List Tree), (∀ t ∈ ts, t ∈ cs) → ∀ inner s, (walkAll source inner ts s).1 =
        ((arrivalsAll source inner ts s).filter (Arrival.isDeprecated source)).map Arrival.met := by
      intro ts
      induction ts with
      | nil =>
        intro _ inner s
        rfl
      | cons t ts ihts =>
        intro hsub inner s
        simp only [walkAll, arrivalsAll, List.filter_append, List.map_append]
        rw [ih t (hsub t (List.mem_cons_self ..)),
          ihts fun u hu => hsub u (List.mem_cons_of_mem t hu)]
    simp only [walk, arrivals, List.filter_cons, Arrival.isDeprecated]
    split
    · rfl
    · split
      · exact hall cs (fun _ h => h) ..
      · split
        · rfl
        · exact hall cs (fun _ h => h) ..

theorem node_mem_of_mem_arrivals {inner : Bool} {t : Tree} {s : Scope} {a : Arrival}
    (ha : a ∈ arrivals source inner t s) : a.node ∈ t.nodes := by
  induction t using Tree.inductionOn generalizing inner s with
  | node k r sp cs ih =>
    have hbelow : ∀ {inner' s'}, a ∈ arrivalsAll source inner' cs s' →
        a.node ∈ (Syntax.Tree.node k r sp cs).nodes := by
      intro inner' s' ha
      obtain ⟨c, hc, s'', ha, -⟩ := exists_of_mem_arrivalsAll ha
      exact Tree.mem_nodes.2 (.inr ⟨c, hc, ih c hc ha⟩)
    rw [arrivals_eq, List.mem_cons] at ha
    rcases ha with rfl | ha
    · exact Tree.self_mem_nodes _
    · split at ha
      · simp at ha
      · split at ha
        · exact hbelow ha
        · split at ha
          · simp at ha
          · exact hbelow ha

/-- Below a node: within it, and not the node itself. -/
def IsBelow (x t : Tree) : Prop :=
  ∃ c ∈ t.children, x ∈ c.nodes

theorem IsBelow.mem_nodes {x t : Tree} (h : IsBelow x t) : x ∈ t.nodes :=
  Tree.mem_nodes.2 (.inr h)

/-- A walk comes to a node, or does not look below another node that it comes to: a deprecated call, or
    an import statement outside all functions, classes and lambdas. -/
def Accounts (source : Text) (arrived : List Arrival) (x : Tree) : Prop :=
  (∃ a ∈ arrived, a.node = x) ∨ ∃ a ∈ arrived, IsBelow x a.node ∧
    (a.isDeprecated source = true ∨ (a.inner = false ∧ isImport a.node.kind = true))

theorem Accounts.mono {arrived arrived' : List Arrival} {x : Tree} (h : Accounts source arrived x)
    (hsub : ∀ a ∈ arrived, a ∈ arrived') : Accounts source arrived' x := by
  rcases h with ⟨a, ha, h⟩ | ⟨a, ha, h⟩
  · exact .inl ⟨a, hsub a ha, h⟩
  · exact .inr ⟨a, hsub a ha, h⟩

/-- No node of a tree is left out by a walk over it for any other reason. -/
theorem accounts_arrivals (source : Text) (inner : Bool) {t x : Tree} (s : Scope) (hx : x ∈ t.nodes) :
    Accounts source (arrivals source inner t s) x := by
  induction t using Tree.inductionOn generalizing inner s with
  | node k r sp cs ih =>
    rcases Tree.mem_nodes.1 hx with rfl | ⟨c, hc, hx⟩
    · exact .inl ⟨_, self_mem_arrivals .., rfl⟩
    have hself := self_mem_arrivals source inner (.node k r sp cs) s
    have hbelow : ∀ inner' s', Accounts source (arrivalsAll source inner' cs s') x := by
      intro inner' s'
      obtain ⟨s'', hall⟩ := exists_arrivals_subset source inner' s' hc
      exact (ih c hc inner' s'' hx).mono hall
    by_cases hcall : isDeprecatedCall source s (.node k r sp cs) = true
    · exact .inr ⟨_, hself, ⟨c, hc, hx⟩, .inl hcall⟩
    by_cases hinner : inner = true
    · refine (hbelow true s).mono fun a ha => ?_
      rw [arrivals_eq, if_neg hcall, if_pos hinner]
      exact List.mem_cons_of_mem _ ha
    by_cases himport : isImport k = true
    · exact .inr ⟨_, hself, ⟨c, hc, hx⟩, .inr ⟨by simpa using hinner, himport⟩⟩
    · refine (hbelow (opensScope k) (bindBefore source (.node k r sp cs) s)).mono fun a ha => ?_
      rw [arrivals_eq, if_neg hcall, if_neg hinner, if_neg (show ¬ isImport
        (Syntax.Tree.node k r sp cs).kind = true from himport)]
      exact List.mem_cons_of_mem _ ha

/-! ## The calls that are found -/

variable {setting : Setting} {script : Script} {f : Found}

/-- The places of the calls that are found are those of the deprecated calls that the walk comes to. -/
theorem spans_eq (hfind : find setting script = .ok f) :
    f.calls.map (fun call => call.classified.span) =
      ((Script.arrivals script).filter (Arrival.isDeprecated script.source)).map
        fun a => a.node.span := by
  rw [map_span_calls hfind, met_eq, List.map_map]
  rfl

/-- The calls that are found are not empty, and each ends before the next one begins. -/
theorem pairwise_spans (hnested : script.root.Nested) (hfind : find setting script = .ok f) :
    (f.calls.map fun call => call.classified.span).Pairwise fun s t =>
      s.startByte < s.endByte ∧ s.endByte ≤ t.startByte ∧ t.startByte < t.endByte := by
  have hspan := (Tree.nested_iff.1 hnested).1.le
  have horder : Tree.InOrder script.root.span.startByte script.root.span.endByte
      ((walk script.source false script.root .empty).1.map Met.call) := inOrder_walk hnested hspan
  replace horder := horder.pairwise
  rw [map_span_calls hfind, List.pairwise_map]
  rw [List.pairwise_map] at horder
  have hlt : ∀ m ∈ (walk script.source false script.root .empty).1,
      m.call.span.startByte < m.call.span.endByte := by
    intro m hm
    obtain ⟨hnode, hcall⟩ := mem_walk hm
    exact lt_of_isDeprecatedCall (hnested.of_mem_nodes hnode) (hnested.bounds hspan hnode).2.1 hcall
  exact horder.imp_of_mem fun hm hm' hle => ⟨hlt _ hm, hle, hlt _ hm'⟩

/-- What is found is in order and complete. -/
structure Complete (script : Script) (f : Found) : Prop where
  /-- The calls come in order, do not meet, and none is within another. -/
  apart : (f.calls.map fun call => call.classified.span).Pairwise fun s t =>
    s.startByte < t.startByte ∧ s.overlaps t = false ∧ s.contains t = false ∧ t.contains s = false
  /-- A call of the deprecated class, in the scope that the walk comes to it with, is found once. -/
  once : ∀ a ∈ Script.arrivals script, a.isDeprecated script.source = true →
    f.calls.countP (fun call => call.classified.span == a.node.span) = 1
  /-- Nothing else is found. -/
  only : ∀ call ∈ f.calls, ∃ a ∈ Script.arrivals script, a.isDeprecated script.source = true ∧
    a.node.span = call.classified.span
  /-- A call that the walk does not come to is below one that is found. -/
  within : ∀ x ∈ script.root.nodes, x.kind = .call → (∃ a ∈ Script.arrivals script, a.node = x) ∨
    ∃ y ∈ script.root.nodes, IsBelow x y ∧ ∃ call ∈ f.calls, call.classified.span = y.span ∧
      y.span.contains x.span = true

/-- In a tree whose nodes are nested, and in which no call is below an import statement, a migration
    finds every call that it has to find. -/
theorem find_complete (hnested : script.root.Nested)
    (himport : ∀ y ∈ script.root.nodes, isImport y.kind = true → ∀ x ∈ y.nodes, x.kind ≠ .call)
    (hfind : find setting script = .ok f) : Complete script f := by
  have hpairs := pairwise_spans hnested hfind
  have hfound : ∀ a ∈ Script.arrivals script, a.isDeprecated script.source = true →
      a.node.span ∈ f.calls.map fun call => call.classified.span := by
    intro a ha hcall
    rw [spans_eq hfind]
    exact List.mem_map_of_mem (List.mem_filter.2 ⟨ha, hcall⟩)
  constructor
  case apart =>
    refine hpairs.imp ?_
    rintro s t ⟨hs, hle, ht⟩
    simp only [Span.overlaps, Span.contains, Bool.and_eq_false_iff, decide_eq_false_iff_not]
    omega
  case once =>
    intro a ha hcall
    have hnodup : (f.calls.map fun call => call.classified.span).Nodup :=
      hpairs.imp fun ⟨hs, hle, _⟩ heq => by
        rw [← heq] at hle
        omega
    have hcount := List.count_eq_one_of_mem hnodup (hfound a ha hcall)
    rwa [List.count, List.countP_map] at hcount
  case only =>
    intro call hcall
    have hspan : call.classified.span ∈ f.calls.map fun call => call.classified.span :=
      List.mem_map_of_mem hcall
    rw [spans_eq hfind] at hspan
    obtain ⟨a, ha, heq⟩ := List.mem_map.1 hspan
    obtain ⟨ha, hdeprecated⟩ := List.mem_filter.1 ha
    exact ⟨a, ha, hdeprecated, heq⟩
  case within =>
    intro x hx hkind
    refine (accounts_arrivals script.source false .empty hx).imp_right ?_
    rintro ⟨a, ha, hbelow, hcall | ⟨-, hstatement⟩⟩
    · have hnode := node_mem_of_mem_arrivals ha
      obtain ⟨call, hmem, hspan⟩ := List.mem_map.1 (hfound a ha hcall)
      have hbounds := hnested.bounds (Tree.nested_iff.1 hnested).1.le hnode
      have hwithin := (hnested.of_mem_nodes hnode).bounds hbounds.2.1 hbelow.mem_nodes
      refine ⟨a.node, hnode, hbelow, call, hmem, hspan, ?_⟩
      simp only [Span.contains, Bool.and_eq_true, decide_eq_true_eq]
      omega
    · exact absurd hkind (himport a.node (node_mem_of_mem_arrivals ha) hstatement x hbelow.mem_nodes)

/-- A call in a function and below a further call, and one that has another one among its arguments. -/
theorem find_complete_nested_calls : ∃ script f,
    Script.read "flow.py" ("from prefect.deployments import Deployment\n" ++
      "def go():\n    g(Deployment.build_from_flow(a)).h()\n" ++
      "Deployment.build_from_flow(b, x=Deployment.build_from_flow(c))\n").toList = .ok script ∧
    find ⟨.offline, .standard⟩ script = .ok f ∧ f.calls.length = 2 ∧ Complete script f := by
  have hrun : ((Script.read "flow.py" ("from prefect.deployments import Deployment\n" ++
      "def go():\n    g(Deployment.build_from_flow(a)).h()\n" ++
      "Deployment.build_from_flow(b, x=Deployment.build_from_flow(c))\n").toList).bind fun s =>
        (find ⟨.offline, .standard⟩ s).map fun f => (f.calls.length, s.root.nodes.all fun y =>
          !isImport y.kind || y.nodes.all fun x => x.kind != .call)) = .ok (2, true) := by
    decide +kernel
  obtain ⟨script, f, hread, hfind, hg⟩ := exists_of_run hrun
  obtain ⟨hlength, hall⟩ := Prod.mk.injEq .. ▸ hg
  refine ⟨script, f, hread, hfind, hlength, find_complete ?_ ?_ hfind⟩
  · exact Syntax.nested_of_parse (parse_of_read hread).1
  · intro y hy himport x hx
    have hy := List.all_eq_true.1 hall y hy
    rw [himport, Bool.not_true, Bool.false_or, List.all_eq_true] at hy
    simpa using hy x hx

end Redeploy.Migration
