import Redeploy.Syntax.Tree

set_option autoImplicit false

/-! # The nodes of a tree

`Tree.nodes` lists a node with all nodes below it. In a tree whose nodes are nested, every node lies
within each node that it is below (`Nested.bounds`), and of two nodes that stand next to each other
under a third one, the first ends before the second one begins (`InOrder.pairwise`). -/

namespace Redeploy.Syntax.Tree

/-- To prove something of all trees, prove it of a node whose children all have it. -/
@[elab_as_elim]
theorem inductionOn {P : Tree → Prop} (t : Tree)
    (node : ∀ k r s cs, (∀ c ∈ cs, P c) → P (.node k r s cs)) : P t :=
  Tree.rec node (by simp) (fun t ts ht hts c hc => by
    rcases List.mem_cons.1 hc with rfl | hc
    · exact ht
    · exact hts c hc) t

mutual

/-- A node, and all nodes below it. -/
def nodes : Tree → List Tree
  | node k r s cs => node k r s cs :: nodesAll cs

/-- The nodes of several trees. -/
def nodesAll : List Tree → List Tree
  | [] => []
  | t :: ts => t.nodes ++ nodesAll ts

end

@[simp] theorem nodesAll_nil : nodesAll [] = [] := rfl

@[simp] theorem nodesAll_cons (t : Tree) (ts : List Tree) :
    nodesAll (t :: ts) = t.nodes ++ nodesAll ts := rfl

theorem nodes_eq (t : Tree) : t.nodes = t :: nodesAll t.children := by
  cases t
  rfl

theorem self_mem_nodes (t : Tree) : t ∈ t.nodes := by
  rw [nodes_eq]
  exact List.mem_cons_self ..

theorem mem_nodesAll {x : Tree} {ts : List Tree} : x ∈ nodesAll ts ↔ ∃ t ∈ ts, x ∈ t.nodes := by
  induction ts with
  | nil => simp
  | cons t ts ih => simp [ih]

theorem mem_nodes {x t : Tree} : x ∈ t.nodes ↔ x = t ∨ ∃ c ∈ t.children, x ∈ c.nodes := by
  rw [nodes_eq, List.mem_cons, mem_nodesAll]

/-- What is below a node is below whatever the node is below. -/
theorem mem_nodes_trans {x y t : Tree} (hx : x ∈ t.nodes) (hy : y ∈ x.nodes) : y ∈ t.nodes := by
  induction t using inductionOn with
  | node k r s cs ih =>
    rcases mem_nodes.1 hx with rfl | ⟨c, hc, hx⟩
    · exact hy
    · exact mem_nodes.2 (.inr ⟨c, hc, ih c hc hx⟩)

/-! ## Nested nodes -/

theorem nestedAll_iff {ts : List Tree} : NestedAll ts ↔ ∀ t ∈ ts, t.Nested := by
  induction ts with
  | nil => simp [NestedAll]
  | cons t ts ih => simp [NestedAll, ih]

theorem nested_iff {t : Tree} :
    t.Nested ↔ InOrder t.span.startByte t.span.endByte t.children ∧ ∀ c ∈ t.children, c.Nested := by
  cases t with
  | node k r s cs =>
    rw [Nested, nestedAll_iff]
    rfl

theorem inOrder_append {m n : Nat} {ts us : List Tree} :
    InOrder m n (ts ++ us) ↔ ∃ k, InOrder m k ts ∧ InOrder k n us := by
  induction ts generalizing m with
  | nil =>
    constructor
    · intro h
      exact ⟨m, Nat.le_refl m, h⟩
    · rintro ⟨k, hmk, h⟩
      cases us with
      | nil => exact Nat.le_trans hmk h
      | cons u us => exact ⟨Nat.le_trans hmk h.1, h.2⟩
  | cons t ts ih => simp [InOrder, ih, and_assoc]

theorem InOrder.le {m n : Nat} {ts : List Tree} (h : InOrder m n ts) : m ≤ n := by
  induction ts generalizing m with
  | nil => exact h
  | cons t ts ih =>
    obtain ⟨h1, h2, h3⟩ := h
    have := ih h3
    omega

theorem InOrder.mono_left {m m' n : Nat} {ts : List Tree} (h : InOrder m n ts) (hle : m' ≤ m) :
    InOrder m' n ts := by
  cases ts with
  | nil => exact Nat.le_trans hle h
  | cons t ts => exact ⟨Nat.le_trans hle h.1, h.2⟩

/-- A tree in order lies between the bounds of all of them. -/
theorem InOrder.bounds {m n : Nat} {ts : List Tree} (h : InOrder m n ts) {t : Tree} (ht : t ∈ ts) :
    m ≤ t.span.startByte ∧ t.span.startByte ≤ t.span.endByte ∧ t.span.endByte ≤ n := by
  induction ts generalizing m with
  | nil => simp at ht
  | cons u ts ih =>
    obtain ⟨h1, h2, h3⟩ := h
    rcases List.mem_cons.1 ht with rfl | ht
    · exact ⟨h1, h2, h3.le⟩
    · obtain ⟨h4, h5, h6⟩ := ih h3 ht
      exact ⟨by omega, h5, h6⟩

/-- Trees in order do not meet. -/
theorem InOrder.pairwise {m n : Nat} {ts : List Tree} (h : InOrder m n ts) :
    ts.Pairwise fun t u => t.span.endByte ≤ u.span.startByte := by
  induction ts generalizing m with
  | nil => exact List.Pairwise.nil
  | cons t ts ih =>
    obtain ⟨-, -, h3⟩ := h
    exact List.pairwise_cons.2 ⟨fun u hu => (h3.bounds hu).1, ih h3⟩

/-- Of two trees in order, one ends before the other begins. -/
theorem InOrder.eq_or_le {m n : Nat} {ts : List Tree} (h : InOrder m n ts) {t u : Tree} (ht : t ∈ ts)
    (hu : u ∈ ts) :
    t = u ∨ t.span.endByte ≤ u.span.startByte ∨ u.span.endByte ≤ t.span.startByte := by
  induction ts generalizing m with
  | nil => simp at ht
  | cons v ts ih =>
    obtain ⟨-, -, hrest⟩ := h
    rcases List.mem_cons.1 ht with rfl | ht' <;> rcases List.mem_cons.1 hu with rfl | hu'
    · exact .inl rfl
    · exact .inr (.inl (hrest.bounds hu').1)
    · exact .inr (.inr (hrest.bounds ht').1)
    · exact ih hrest ht' hu'

theorem Nested.of_mem_nodes {x t : Tree} (h : t.Nested) (hx : x ∈ t.nodes) : x.Nested := by
  induction t using inductionOn with
  | node k r s cs ih =>
    rcases mem_nodes.1 hx with rfl | ⟨c, hc, hx⟩
    · exact h
    · exact ih c hc ((nested_iff.1 h).2 c hc) hx

/-- A node lies within each node that it is below. -/
theorem Nested.bounds {x t : Tree} (h : t.Nested) (hspan : t.span.startByte ≤ t.span.endByte)
    (hx : x ∈ t.nodes) : t.span.startByte ≤ x.span.startByte ∧
      x.span.startByte ≤ x.span.endByte ∧ x.span.endByte ≤ t.span.endByte := by
  induction t using inductionOn with
  | node k r s cs ih =>
    rcases mem_nodes.1 hx with rfl | ⟨c, hc, hx⟩
    · exact ⟨Nat.le_refl _, hspan, Nat.le_refl _⟩
    · obtain ⟨horder, hnested⟩ := nested_iff.1 h
      have hc' := horder.bounds hc
      have := ih c hc (hnested c hc) hc'.2.1 hx
      omega

end Redeploy.Syntax.Tree
