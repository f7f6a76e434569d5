import Redeploy.Proofs.Syntax.Nodes
import Redeploy.Proofs.Syntax.Reads

set_option autoImplicit false

/-! # What rules build

The nodes that a rule builds are nested and in order, as the tokens are that it reads
(`Reads.stacked`). What holds of each token when it is read holds of all tokens (`Reads.forall_uses`),
and what holds of each node when it is built of all nodes (`Reads.forall_rows`); where that depends on
the form of the rules, `Rule.every` tests all their parts. For the nodes of some kinds, it is enough to
look at the rules that make them (`Reads.forall_made`). -/

namespace Redeploy.Syntax

/-! ## Nodes in order -/

/-- Trees are nested and in order between two bounds. The last one comes first. -/
def Stacked (start : Nat) : List Tree → (stop : Nat) → Prop
  | [], stop => start ≤ stop
  | t :: ts, stop => t.span.endByte ≤ stop ∧ t.span.startByte ≤ t.span.endByte ∧ t.Nested ∧
      Stacked start ts t.span.startByte

namespace Stacked

theorem mono {m n n' : Nat} {ts : List Tree} (h : Stacked m ts n) (hle : n ≤ n') :
    Stacked m ts n' := by
  cases ts with
  | nil => exact Nat.le_trans h hle
  | cons t ts => exact ⟨Nat.le_trans h.1 hle, h.2⟩

theorem le {m n : Nat} {ts : List Tree} (h : Stacked m ts n) : m ≤ n := by
  induction ts generalizing n with
  | nil => exact h
  | cons t ts ih =>
    obtain ⟨h1, h2, -, h3⟩ := h
    have := ih h3
    omega

theorem append {k m n : Nat} {ts us : List Tree} (h : Stacked m us n) (h' : Stacked k ts m) :
    Stacked k (us ++ ts) n := by
  induction us generalizing n with
  | nil => exact h'.mono h
  | cons u us ih =>
    obtain ⟨h1, h2, h3, h4⟩ := h
    exact ⟨h1, h2, h3, ih h4⟩

theorem map_withRole {m n : Nat} {ts : List Tree} (r : Role) (h : Stacked m ts n) :
    Stacked m (ts.map (Tree.withRole r)) n := by
  induction ts generalizing n with
  | nil => exact h
  | cons t ts ih =>
    cases t
    obtain ⟨h1, h2, h3, h4⟩ := h
    exact ⟨h1, h2, h3, ih h4⟩

theorem nested_mem {m n : Nat} {ts : List Tree} (h : Stacked m ts n) : ∀ t ∈ ts, t.Nested := by
  induction ts generalizing n with
  | nil => simp
  | cons t ts ih =>
    obtain ⟨-, -, h3, h4⟩ := h
    intro u hu
    rcases List.mem_cons.1 hu with rfl | hu
    · exact h3
    · exact ih h4 u hu

theorem inOrder_reverse {m n : Nat} {ts : List Tree} (h : Stacked m ts n) :
    Tree.InOrder m n ts.reverse := by
  induction ts generalizing n with
  | nil => exact h
  | cons t ts ih =>
    obtain ⟨h1, h2, -, h4⟩ := h
    rw [List.reverse_cons, Tree.inOrder_append]
    exact ⟨t.span.startByte, ih h4, Nat.le_refl _, h2, h1⟩

/-- A node over trees between the bounds of its span is nested. -/
theorem nested {s : Span} {k : Kind} {r : Option Role} {ts : List Tree}
    (h : Stacked s.startByte ts s.endByte) : (Tree.node k r s ts.reverse).Nested :=
  Tree.nested_iff.2 ⟨h.inOrder_reverse, fun t ht => h.nested_mem t (List.mem_reverse.1 ht)⟩

end Stacked

variable {N : Type} {g : N → Rule N}

/-- What a rule builds behind nodes in order is in order behind them, if the tokens are that it
    reads. -/
theorem Reads.stacked {rule : Rule N} {us : List Use} {f f' : Frame} (h : Reads g rule us f f') :
    ∀ {m n : Nat}, Token.InOrder n (Use.tokens us) → Stacked m f.built n →
      Stacked m f'.built (Token.endOf n (Use.tokens us)) := by
  induction h with
  | empty | token | manyNil | become | ahead | notAhead =>
    intro m n horder hf
    exact hf.mono horder.le_endOf
  | seq _ _ iha ihb =>
    intro m n horder hf
    rw [Use.tokens_append] at *
    rw [Token.inOrder_append] at horder
    rw [Token.endOf_append]
    exact ihb horder.2 (iha horder.1 hf)
  | altLeft _ ih | altRight _ ih | ref _ ih => exact ih
  | manyCons _ _ _ iha ihb =>
    intro m n horder hf
    rw [Use.tokens_append] at *
    rw [Token.inOrder_append] at horder
    rw [Token.endOf_append]
    exact ihb horder.2 (iha horder.1 hf)
  | @node k a u us f f' _ ih =>
    intro m n horder hf
    -- the node begins where its first token does, and ends where its last one does
    have hinner : Stacked (u.span us).startByte f'.built (u.span us).endByte := by
      have := ih (m := u.token.span.startByte) ⟨Nat.le_refl _, horder.2⟩ (Nat.le_refl _)
      rwa [Use.endOf_tokens] at this
    rw [Use.endOf_tokens]
    exact ⟨Nat.le_refl _, hinner.le, hinner.nested, hf.mono horder.1⟩
  | @wrap k r a u us kind head before f' _ ih =>
    intro m n horder hf
    obtain ⟨hend, hspan, hnested, hbefore⟩ := hf
    have hhead : Stacked head.span.startByte [(r.map head.withRole).getD head] n := by
      have hself : Stacked head.span.startByte [head] n := ⟨hend, hspan, hnested, Nat.le_refl _⟩
      cases r with
      | none => exact hself
      | some r => exact hself.map_withRole r
    have hinner : Stacked (head.span.upTo (u.span us)).startByte f'.built
        (head.span.upTo (u.span us)).endByte := by
      have := ih horder hhead
      rwa [Use.endOf_tokens] at this
    rw [Use.endOf_tokens]
    exact ⟨Nat.le_refl _, hinner.le, hinner.nested, hbefore⟩
  | role _ ih =>
    intro m n horder hf
    exact ((ih horder (Nat.le_refl n)).map_withRole _).append hf
  | only _ _ ih =>
    intro m n horder hf
    exact (ih horder (Nat.le_refl n)).append hf

/-! ## What holds of all tokens -/

/-- Whether a rule and all its parts pass a test. -/
def Rule.every (p : Rule N → Bool) (r : Rule N) : Bool :=
  p r && match r with
    | .seq a b | .alt a b => every p a && every p b
    | .many a | .node _ a | .wrap _ _ a | .role _ a | .only _ a => every p a
    | .empty | .token _ | .ref _ | .become _ | .ahead _ | .notAhead _ => true

theorem Rule.every_true (r : Rule N) : r.every (fun _ => true) = true := by
  induction r with
  | seq a b iha ihb | alt a b iha ihb => simp [every, iha, ihb]
  | many a ih | node _ a ih | wrap _ _ a ih | role _ a ih | only _ a ih => simp [every, ih]
  | empty | token | ref | become | ahead | notAhead => rfl

/-- Something that holds of every token that a test of the rules allows to be read holds of all tokens
    that a rule reads. -/
theorem Reads.forall_uses {Q : Use → Prop} (p : Rule N → Bool)
    (htoken : ∀ t token, p (.token t) = true → t.accepts token = true → Q ⟨t, token⟩)
    (hg : ∀ n, (g n).every p = true) {rule : Rule N} {us : List Use} {f f' : Frame}
    (h : Reads g rule us f f') : rule.every p = true → ∀ u ∈ us, Q u := by
  induction h with
  | empty | manyNil | become | ahead | notAhead => simp
  | @token t token _ hacc =>
    intro hp u hu
    obtain rfl := List.mem_singleton.1 hu
    simp only [Rule.every, Bool.and_true] at hp
    exact htoken t token hp hacc
  | seq _ _ iha ihb =>
    intro hp u hu
    simp only [Rule.every, Bool.and_eq_true] at hp
    rcases List.mem_append.1 hu with hu | hu
    · exact iha hp.2.1 u hu
    · exact ihb hp.2.2 u hu
  | altLeft _ ih =>
    intro hp
    simp only [Rule.every, Bool.and_eq_true] at hp
    exact ih hp.2.1
  | altRight _ ih =>
    intro hp
    simp only [Rule.every, Bool.and_eq_true] at hp
    exact ih hp.2.2
  | manyCons _ _ _ iha ihb =>
    intro hp u hu
    have hp' := hp
    simp only [Rule.every, Bool.and_eq_true] at hp'
    rcases List.mem_append.1 hu with hu | hu
    · exact iha hp'.2 u hu
    · exact ihb hp u hu
  | ref _ ih =>
    intro _
    exact ih (hg _)
  | node _ ih | wrap _ ih | role _ ih | only _ _ ih =>
    intro hp
    simp only [Rule.every, Bool.and_eq_true] at hp
    exact ih hp.2

/-- Every token has passed the test that it has been read by. -/
theorem Reads.accepts {rule : Rule N} {us : List Use} {f f' : Frame} (h : Reads g rule us f f') :
    ∀ u ∈ us, u.terminal.accepts u.token = true :=
  h.forall_uses (Q := fun u => u.terminal.accepts u.token = true) (fun _ => true)
    (fun _ _ _ hacc => hacc) (fun n => (g n).every_true) rule.every_true

/-! ## What holds of all nodes -/

theorem Tree.forall_nodes_withRole {P : Tree → Prop} {t : Tree} (r : Role)
    (hrole : P t → P (t.withRole r)) (h : ∀ x ∈ t.nodes, P x) : ∀ x ∈ (t.withRole r).nodes, P x := by
  intro x hx
  rcases Tree.mem_nodes.1 hx with rfl | hx
  · exact hrole (h t t.self_mem_nodes)
  · cases t
    exact h x (Tree.mem_nodes.2 (.inr hx))

/-- Something that holds of a node when it is built, and that its role does not matter for, holds of
    all nodes that a rule builds. When it is built, the node may rely on a test of its rule, and on a
    property of the tokens in a row that have been read for it. -/
theorem Reads.forall_rows {P : Tree → Prop} {Q : List Use → Prop} (p : Rule N → Bool)
    (hrole : ∀ r t, P t → P (t.withRole r))
    (hnode : ∀ {k a u us f}, (Rule.node k a).every p = true → Reads g a (u :: us) ⟨k, []⟩ f →
      Q (u :: us) → P (.node f.kind none (u.span us) f.built.reverse))
    (hwrap : ∀ {k r a u us head f}, (Rule.wrap k r a).every p = true →
      Reads g a (u :: us) ⟨k, [(r.map head.withRole).getD head]⟩ f → Q (u :: us) → P head →
      P (.node f.kind none (head.span.upTo (u.span us)) f.built.reverse))
    (happend : ∀ us vs, Q (us ++ vs) → Q us ∧ Q vs) (hg : ∀ n, (g n).every p = true) {rule : Rule N}
    {us : List Use} {f f' : Frame} (h : Reads g rule us f f') : rule.every p = true → Q us →
      (∀ x ∈ Tree.nodesAll f.built, P x) → ∀ x ∈ Tree.nodesAll f'.built, P x := by
  induction h with
  | empty | token | manyNil | become | ahead | notAhead =>
    intro _ _ hf
    exact hf
  | seq _ _ iha ihb =>
    intro hp hQ hf
    simp only [Rule.every, Bool.and_eq_true] at hp
    exact ihb hp.2.2 (happend _ _ hQ).2 (iha hp.2.1 (happend _ _ hQ).1 hf)
  | altLeft _ ih =>
    intro hp hQ hf
    simp only [Rule.every, Bool.and_eq_true] at hp
    exact ih hp.2.1 hQ hf
  | altRight _ ih =>
    intro hp hQ hf
    simp only [Rule.every, Bool.and_eq_true] at hp
    exact ih hp.2.2 hQ hf
  | manyCons _ _ _ iha ihb =>
    intro hp hQ hf
    have hp' := hp
    simp only [Rule.every, Bool.and_eq_true] at hp'
    exact ihb hp (happend _ _ hQ).2 (iha hp'.2 (happend _ _ hQ).1 hf)
  | ref _ ih =>
    intro _ hQ hf
    exact ih (hg _) hQ hf
  | node ha ih =>
    intro hp hQ hf x hx
    have hp' := hp
    simp only [Rule.every, Bool.and_eq_true] at hp'
    have hinner := ih hp'.2 hQ (by simp)
    rw [Tree.nodesAll_cons, List.mem_append, Tree.mem_nodes] at hx
    rcases hx with (rfl | ⟨c, hc, hx⟩) | hx
    · exact hnode hp ha hQ
    · exact hinner x (Tree.mem_nodesAll.2 ⟨c, List.mem_reverse.1 hc, hx⟩)
    · exact hf x hx
  | @wrap k r a u us kind head before f' ha ih =>
    intro hp hQ hf x hx
    have hp' := hp
    simp only [Rule.every, Bool.and_eq_true] at hp'
    rw [Tree.nodesAll_cons] at hf
    have hhead : ∀ x ∈ head.nodes, P x := fun x hx => hf x (List.mem_append_left _ hx)
    have hinner := ih hp'.2 hQ (by
      rw [Tree.nodesAll_cons, Tree.nodesAll_nil, List.append_nil]
      cases r with
      | none => exact hhead
      | some r => exact Tree.forall_nodes_withRole r (hrole r head) hhead)
    rw [Tree.nodesAll_cons, List.mem_append, Tree.mem_nodes] at hx
    rcases hx with (rfl | ⟨c, hc, hx⟩) | hx
    · exact hwrap hp ha hQ (hhead head head.self_mem_nodes)
    · exact hinner x (Tree.mem_nodesAll.2 ⟨c, List.mem_reverse.1 hc, hx⟩)
    · exact hf x (List.mem_append_right _ hx)
  | role _ ih =>
    intro hp hQ hf x hx
    simp only [Rule.every, Bool.and_eq_true] at hp
    have hinner := ih hp.2 hQ (by simp)
    obtain ⟨t, ht, hx⟩ := Tree.mem_nodesAll.1 hx
    rcases List.mem_append.1 ht with ht | ht
    · obtain ⟨u, hu, rfl⟩ := List.mem_map.1 ht
      exact Tree.forall_nodes_withRole _ (hrole _ u)
        (fun y hy => hinner y (Tree.mem_nodesAll.2 ⟨u, hu, hy⟩)) x hx
    · exact hf x (Tree.mem_nodesAll.2 ⟨t, ht, hx⟩)
  | only _ _ ih =>
    intro hp hQ hf x hx
    simp only [Rule.every, Bool.and_eq_true] at hp
    have hinner := ih hp.2 hQ (by simp)
    obtain ⟨t, ht, hx⟩ := Tree.mem_nodesAll.1 hx
    rcases List.mem_append.1 ht with ht | ht
    · exact hinner x (Tree.mem_nodesAll.2 ⟨t, ht, hx⟩)
    · exact hf x (Tree.mem_nodesAll.2 ⟨t, ht, hx⟩)

/-! ## How nodes of a kind are made -/

/-- Whether a rule makes the nodes of some kinds of what passes a test alone: neither around another node,
    nor by changing the kind of one that has been begun. -/
def Rule.makes (kinds : Kind → Bool) (q : Rule N → Bool) : Rule N → Bool
  | .node k a => !kinds k || q a
  | .wrap k _ _ | .become k => !kinds k
  | _ => true

/-- A node that comes out as one of the kinds has been begun as a node of this kind. -/
theorem Reads.kind_eq_of_makes {kinds : Kind → Bool} {q : Rule N → Bool}
    (hg : ∀ n, (g n).every (Rule.makes kinds q) = true) {rule : Rule N} {us : List Use} {f f' : Frame}
    (h : Reads g rule us f f') :
    rule.every (Rule.makes kinds q) = true → kinds f'.kind = true → f'.kind = f.kind := by
  induction h with
  | empty | token | manyNil | ahead | notAhead | node | wrap => exact fun _ _ => rfl
  | seq _ _ iha ihb =>
    intro hp hkind
    simp only [Rule.every, Bool.and_eq_true] at hp
    have hb := ihb hp.2.2 hkind
    exact hb.trans (iha hp.2.1 (hb ▸ hkind))
  | altLeft _ ih =>
    intro hp
    simp only [Rule.every, Bool.and_eq_true] at hp
    exact ih hp.2.1
  | altRight _ ih =>
    intro hp
    simp only [Rule.every, Bool.and_eq_true] at hp
    exact ih hp.2.2
  | manyCons _ _ _ iha ihb =>
    intro hp hkind
    have hp' := hp
    simp only [Rule.every, Bool.and_eq_true] at hp'
    have hb := ihb hp hkind
    exact hb.trans (iha hp'.2 (hb ▸ hkind))
  | ref _ ih => exact fun _ => ih (hg _)
  | become =>
    intro hp hkind
    simp only [Rule.every, Rule.makes, Bool.and_true, Bool.not_eq_true'] at hp
    rw [hp] at hkind
    simp at hkind
  | role _ ih | only _ _ ih =>
    intro hp
    simp only [Rule.every, Bool.and_eq_true] at hp
    exact ih hp.2

/-- Something that holds of every node of the kinds that is made of what passes the test, and that its
    role does not matter for, holds of all nodes of these kinds that a rule builds. -/
theorem Reads.forall_made {P : Tree → Prop} {Q : List Use → Prop} (kinds : Kind → Bool)
    (q : Rule N → Bool) (hrole : ∀ r t, P t → P (t.withRole r))
    (hnode : ∀ {k a u us f}, kinds k = true → q a = true → Reads g a (u :: us) ⟨k, []⟩ f →
      Q (u :: us) → P (.node k none (u.span us) f.built.reverse))
    (happend : ∀ us vs, Q (us ++ vs) → Q us ∧ Q vs)
    (hg : ∀ n, (g n).every (Rule.makes kinds q) = true) {rule : Rule N} {us : List Use} {f f' : Frame}
    (h : Reads g rule us f f') (hrule : rule.every (Rule.makes kinds q) = true) (hQ : Q us)
    (hf : f.built = []) : ∀ x ∈ Tree.nodesAll f'.built, kinds x.kind = true → P x := by
  refine h.forall_rows (P := fun x => kinds x.kind = true → P x) (Rule.makes kinds q) ?_ ?_ ?_ happend hg
    hrule hQ (by simp [hf])
  · rintro r ⟨kind, role, span, children⟩ ht hkind
    exact hrole r _ (ht hkind)
  · intro k a u us f hp ha hQ hkind
    simp only [Rule.every, Bool.and_eq_true] at hp
    obtain rfl : f.kind = k := ha.kind_eq_of_makes hg hp.2 hkind
    refine hnode hkind ?_ ha hQ
    simpa [Rule.makes, show kinds f.kind = true from hkind] using hp.1
  · intro k r a u us head f hp ha _ _ hkind
    simp only [Rule.every, Bool.and_eq_true] at hp
    obtain rfl : f.kind = k := ha.kind_eq_of_makes hg hp.2 hkind
    have hnot := hp.1
    rw [Rule.makes, show kinds f.kind = true from hkind] at hnot
    simp at hnot

/-! ## Where nodes begin and end -/

/-- Where the nodes begin and end, tokens do. -/
theorem Reads.forall_bounds {C : Nat → Prop} {rule : Rule N} {us : List Use} {f f' : Frame}
    (h : Reads g rule us f f')
    (hus : ∀ u ∈ us, C u.token.span.startByte ∧ C u.token.span.endByte)
    (hf : ∀ x ∈ Tree.nodesAll f.built, C x.span.startByte ∧ C x.span.endByte) :
    ∀ x ∈ Tree.nodesAll f'.built, C x.span.startByte ∧ C x.span.endByte := by
  have hlast : ∀ {u : Use} {us : List Use}, us.getLastD u ∈ u :: us := by
    intro u us
    rw [List.getLastD_eq_getLast?]
    cases hl : us.getLast? with
    | none => exact List.mem_cons_self ..
    | some v => exact List.mem_cons_of_mem u (List.mem_of_getLast? hl)
  refine h.forall_rows (P := fun x => C x.span.startByte ∧ C x.span.endByte)
    (Q := fun us => ∀ u ∈ us, C u.token.span.startByte ∧ C u.token.span.endByte) (fun _ => true) ?_ ?_ ?_
    (fun _ _ => List.forall_mem_append.1) (fun n => (g n).every_true) rule.every_true hus hf
  · intro r t ht
    cases t
    exact ht
  · intro k a u us f _ _ hus
    exact ⟨(hus u (List.mem_cons_self ..)).1, (hus _ hlast).2⟩
  · intro k r a u us head f _ _ hus hhead
    exact ⟨hhead.1, (hus _ hlast).2⟩

end Redeploy.Syntax
