import Redeploy.Migration.DeadImport
import Redeploy.Migration.Traversal
import Redeploy.Proofs.Fallible
import Redeploy.Proofs.Syntax.Shapes

set_option autoImplicit false

/-! # Where a name is used

The search for the uses of a name turns back at import statements, at replaced calls and at
identifiers. `isReferenced_eq_true_iff` says of it what it finds, told over all nodes of the tree at
once: an identifier with that text is found exactly if nothing on the way down to it is turned back at.
In a tree whose nodes are nested, whatever lies below a node within a replaced call lies within that
call itself (`Path.isReplaced_iff`), so the search misses no identifier outside of them. Import statements
are those of names and those from modules; an import from `__future__` is a statement of another kind,
which the search looks into. -/

namespace Redeploy.Syntax.Tree

/-! ## Ways down a tree -/

/-- The nodes on the way from the root of a tree down to one of its nodes, both of them included. -/
inductive Path : Tree → List Tree → Tree → Prop where
  /-- The root is where it starts. -/
  | here (t : Tree) : Path t [t] t
  /-- The way goes on from a child of the root. -/
  | down {t c x : Tree} {ys : List Tree} (hc : c ∈ t.children) (h : Path c ys x) : Path t (t :: ys) x

namespace Path

variable {t x y : Tree} {ys : List Tree}

theorem root_mem (h : t.Path ys x) : t ∈ ys := by
  cases h <;> exact List.mem_cons_self ..

theorem end_mem (h : t.Path ys x) : x ∈ ys := by
  induction h with
  | here t => exact List.mem_cons_self ..
  | down _ _ ih => exact List.mem_cons_of_mem _ ih

/-- The node at the end lies below every node on the way. -/
theorem mem_nodes (h : t.Path ys x) (hy : y ∈ ys) : x ∈ y.nodes := by
  induction h generalizing y with
  | here t =>
    obtain rfl := List.mem_singleton.1 hy
    exact y.self_mem_nodes
  | @down t c x ys hc h ih =>
    rcases List.mem_cons.1 hy with rfl | hy
    · exact Tree.mem_nodes.2 (.inr ⟨c, hc, ih h.root_mem⟩)
    · exact ih hy

/-- Every node on the way is a node of the tree. -/
theorem mem_nodes_root (h : t.Path ys x) (hy : y ∈ ys) : y ∈ t.nodes := by
  induction h with
  | here t =>
    obtain rfl := List.mem_singleton.1 hy
    exact y.self_mem_nodes
  | @down t c x ys hc _ ih =>
    rcases List.mem_cons.1 hy with rfl | hy
    · exact y.self_mem_nodes
    · exact Tree.mem_nodes.2 (.inr ⟨c, hc, ih hy⟩)

end Path

/-- There is a way to every node. -/
theorem exists_path {t x : Tree} (h : x ∈ t.nodes) : ∃ ys, t.Path ys x := by
  induction t using inductionOn with
  | node k r s cs ih =>
    rcases mem_nodes.1 h with rfl | ⟨c, hc, hx⟩
    · exact ⟨_, .here _⟩
    · obtain ⟨ys, hys⟩ := ih c hc hx
      exact ⟨_, .down hc hys⟩

theorem Nested.span_le {t : Tree} (h : t.Nested) : t.span.startByte ≤ t.span.endByte :=
  (nested_iff.1 h).1.le

end Redeploy.Syntax.Tree

namespace Redeploy.Migration

open Syntax

variable {source : Text} {name : String} {replaced : List Span} {t x : Tree} {ys : List Tree}

/-! ## What the search turns back at -/

/-- The search for a name goes on at a node and below it. -/
def Unpruned (replaced : List Span) (y : Tree) : Prop :=
  isImport y.kind = false ∧ isReplaced replaced y.span = false

theorem isReplaced_of_le {s s' : Span} (h : isReplaced replaced s = true)
    (hstart : s.startByte ≤ s'.startByte) (hend : s'.endByte ≤ s.endByte) :
    isReplaced replaced s' = true := by
  simp only [isReplaced, List.any_eq_true, Span.contains, Bool.and_eq_true, decide_eq_true_eq] at h ⊢
  obtain ⟨r, hr, hrs, hre⟩ := h
  exact ⟨r, hr, by omega, by omega⟩

/-- On the way to a node something lies within a replaced call exactly if the node itself does. -/
theorem Path.isReplaced_iff (hnested : t.Nested) (h : t.Path ys x) :
    (∃ y ∈ ys, isReplaced replaced y.span = true) ↔ isReplaced replaced x.span = true := by
  constructor
  · rintro ⟨y, hy, hreplaced⟩
    have hnested' := hnested.of_mem_nodes (h.mem_nodes_root hy)
    have hbounds := hnested'.bounds hnested'.span_le (h.mem_nodes hy)
    exact isReplaced_of_le hreplaced hbounds.1 hbounds.2.2
  · intro hreplaced
    exact ⟨x, h.end_mem, hreplaced⟩

/-! ## The search -/

theorem isReferencedIn_eq_true_iff {ts : List Tree} :
    isReferencedIn source name replaced ts = true ↔
      ∃ c ∈ ts, isReferenced source name replaced c = true := by
  induction ts with
  | nil => simp [isReferencedIn]
  | cons c ts ih => simp [isReferencedIn, ih]

theorem isReferenced_of_pruned (h : ¬ Unpruned replaced t) :
    isReferenced source name replaced t = false := by
  obtain ⟨k, r, s, cs⟩ := t
  unfold isReferenced
  by_cases hreplaced : isReplaced replaced s = true
  · simp [hreplaced]
  · have himport : isImport k = true := by
      simpa [Unpruned, Tree.kind, Tree.span, hreplaced] using h
    cases k <;> first | rfl | simp [isImport] at himport

/-- Where the search goes on, an identifier answers for itself and any other node for its children. -/
theorem isReferenced_of_unpruned (h : Unpruned replaced t) : isReferenced source name replaced t =
    if t.kind = .identifier then t.text source == name
    else isReferencedIn source name replaced t.children := by
  obtain ⟨k, r, s, cs⟩ := t
  obtain ⟨himport, hreplaced⟩ := h
  have hk : (k == .importStatement || k == .importFromStatement) = false := by
    cases k <;> first | rfl | simp [Tree.kind, isImport] at himport
  unfold isReferenced
  rw [hk, show isReplaced replaced s = false from hreplaced]
  by_cases hkind : k = .identifier <;> simp [Tree.kind, Tree.children, hkind]

/-- The search finds the identifiers that it comes to without turning back. -/
theorem isReferenced_iff_path (hleaf : ∀ y ∈ t.nodes, y.kind = .identifier → y.children = []) :
    isReferenced source name replaced t = true ↔
      ∃ ys x, t.Path ys x ∧ x.kind = .identifier ∧ x.text source = name ∧
        ∀ y ∈ ys, Unpruned replaced y := by
  induction t using Tree.inductionOn with
  | node k r s cs ih =>
    generalize ht : Syntax.Tree.node k r s cs = t at hleaf ⊢
    have hchildren : t.children = cs := by rw [← ht]; rfl
    by_cases hgo : Unpruned replaced t
    case neg =>
      rw [isReferenced_of_pruned hgo]
      constructor
      · simp
      · rintro ⟨ys, x, hpath, -, -, hys⟩
        exact absurd (hys t hpath.root_mem) hgo
    rw [isReferenced_of_unpruned hgo]
    by_cases hkind : t.kind = .identifier
    case pos =>
      -- an identifier has no nodes below it
      rw [if_pos hkind, beq_iff_eq]
      constructor
      · intro hname
        exact ⟨[t], t, .here t, hkind, hname, by simpa using hgo⟩
      · rintro ⟨ys, x, hpath, -, hname, -⟩
        cases hpath with
        | here => exact hname
        | down hc => simp [hleaf t t.self_mem_nodes hkind] at hc
    rw [if_neg hkind, isReferencedIn_eq_true_iff, hchildren]
    have hbelow : ∀ c ∈ cs, ∀ y ∈ c.nodes, y.kind = .identifier → y.children = [] := by
      intro c hc y hy
      exact hleaf y (Tree.mem_nodes.2 (.inr ⟨c, hchildren ▸ hc, hy⟩))
    constructor
    · rintro ⟨c, hc, hfound⟩
      obtain ⟨ys, x, hpath, hx, hname, hys⟩ := (ih c hc (hbelow c hc)).1 hfound
      refine ⟨t :: ys, x, .down (hchildren ▸ hc) hpath, hx, hname, ?_⟩
      intro y hy
      rcases List.mem_cons.1 hy with rfl | hy
      · exact hgo
      · exact hys y hy
    · rintro ⟨ys, x, hpath, hx, hname, hys⟩
      cases hpath with
      | here => exact absurd hx hkind
      | @down _ c _ ys hc hpath =>
        rw [hchildren] at hc
        refine ⟨c, hc, (ih c hc (hbelow c hc)).2 ⟨ys, x, hpath, hx, hname, ?_⟩⟩
        intro y hy
        exact hys y (List.mem_cons_of_mem _ hy)

/-- In a tree whose nodes are nested and whose identifiers are leaves, a name is used exactly if some
    identifier is the name and neither it nor any node above it is an import statement or lies within a
    replaced call. There is a way to every node, and of the nodes on it the last one is enough to tell
    whether one of them lies within a replaced call: an identifier outside of all import statements and
    of all replaced calls is never missed. -/
theorem isReferenced_eq_true_iff (hnested : t.Nested)
    (hleaf : ∀ y ∈ t.nodes, y.kind = .identifier → y.children = []) :
    (isReferenced source name replaced t = true ↔
      ∃ ys x, t.Path ys x ∧ x.kind = .identifier ∧ x.text source = name ∧
        ∀ y ∈ ys, isImport y.kind = false ∧ isReplaced replaced y.span = false) ∧
    (∀ x ∈ t.nodes, ∃ ys, t.Path ys x) ∧
    ∀ ys x, t.Path ys x → ((∃ y ∈ ys, isImport y.kind = true ∨ isReplaced replaced y.span = true) ↔
      (∃ y ∈ ys, isImport y.kind = true) ∨ isReplaced replaced x.span = true) := by
  refine ⟨isReferenced_iff_path hleaf, fun x hx => Tree.exists_path hx, ?_⟩
  intro ys x hpath
  rw [← Path.isReplaced_iff hnested hpath]
  constructor
  · rintro ⟨y, hy, himport | hreplaced⟩
    · exact .inl ⟨y, hy, himport⟩
    · exact .inr ⟨y, hy, hreplaced⟩
  · rintro (⟨y, hy, himport⟩ | ⟨y, hy, hreplaced⟩)
    · exact ⟨y, hy, .inl himport⟩
    · exact ⟨y, hy, .inr hreplaced⟩

/-- A name beside a replaced call is found; one that only the call and an import statement have is not. -/
theorem isReferenced_beside_call : ∃ root, parse "import x\nD.f(x)\nD.g\n".toList = .ok root ∧
    root.Nested ∧ (∀ y ∈ root.nodes, y.kind = .identifier → y.children = []) ∧
    (∃ ys x, root.Path ys x ∧ x.kind = .identifier ∧ x.text "import x\nD.f(x)\nD.g\n".toList = "D" ∧
      ∀ y ∈ ys, isImport y.kind = false ∧ isReplaced [⟨9, 15, 2, 0, 2, 6⟩] y.span = false) ∧
    ¬ ∃ ys x, root.Path ys x ∧ x.kind = .identifier ∧
      x.text "import x\nD.f(x)\nD.g\n".toList = "x" ∧
      ∀ y ∈ ys, isImport y.kind = false ∧ isReplaced [⟨9, 15, 2, 0, 2, 6⟩] y.span = false := by
  have hrun : (parse "import x\nD.f(x)\nD.g\n".toList).map (fun root =>
      ["D", "x"].map fun name => isReferenced "import x\nD.f(x)\nD.g\n".toList name
        [⟨9, 15, 2, 0, 2, 6⟩] root) = .ok [true, false] := by decide +kernel
  obtain ⟨root, hparse, hfinds⟩ := exists_of_map_eq_ok hrun
  simp only [List.map_cons, List.map_nil, List.cons.injEq] at hfinds
  obtain ⟨hfound, hmissed, -⟩ := hfinds
  have hnested := nested_of_parse hparse
  have hleaf := children_of_identifier hparse
  refine ⟨root, hparse, hnested, hleaf, (isReferenced_eq_true_iff hnested hleaf).1.1 hfound, ?_⟩
  rw [← (isReferenced_eq_true_iff hnested hleaf).1, hmissed]
  simp

end Redeploy.Migration
