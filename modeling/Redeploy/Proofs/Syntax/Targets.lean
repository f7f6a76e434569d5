import Redeploy.Proofs.Syntax.Shapes
import Redeploy.Proofs.Syntax.Rows

set_option autoImplicit false

/-! # Targets in a tree

Which trees can be assigned to (`isTarget`), and that the grammar lets nothing else stand on the left of
an assignment, of a change in place or of a loop (`isTarget_of_left`). A rule that builds targets alone
is told by its form (`Rule.buildsTargets`); behind a star that takes counting, since the star stands for
one target (`Reads.length_built`). -/

namespace Redeploy.Syntax

/-! ## Trees that are targets -/

/-- A node stands for a place within a value. -/
def isPlace (k : Kind) : Bool :=
  k == .attributeAccess || k == .subscript

/-- A node stands for the items that the targets beside it leave over. -/
def isStarred (k : Kind) : Bool :=
  k == .listSplatPattern || k == .listSplat

/-- A node stands for several targets. -/
def isGroup (k : Kind) : Bool :=
  k == .patternList || k == .tuplePattern || k == .listPattern || k == .tuple || k == .list

/-- A node stands for the one target within it. A pattern in parentheses is a group of one target if a
    comma follows it, and the target itself if none does; its tree is the same. -/
def encloses (k : Kind) : Bool :=
  k == .tuplePattern || k == .parenthesizedExpression || k == .asPatternTarget

section

variable {k : Kind}

theorem isStarred_of_isPlace (h : isPlace k = true) : isStarred k = false := by
  simp only [isPlace, Bool.or_eq_true, beq_iff_eq] at h
  rcases h with rfl | rfl <;> rfl

theorem of_isStarred (h : isStarred k = true) : isPlace k = false ∧ isGroup k = false := by
  simp only [isStarred, Bool.or_eq_true, beq_iff_eq] at h
  rcases h with rfl | rfl <;> exact ⟨rfl, rfl⟩

theorem of_isGroup (h : isGroup k = true) : isPlace k = false ∧ isStarred k = false := by
  simp only [isGroup, Bool.or_eq_true, beq_iff_eq] at h
  rcases h with (((rfl | rfl) | rfl) | rfl) | rfl <;> exact ⟨rfl, rfl⟩

theorem of_encloses (h : encloses k = true) : isPlace k = false ∧ isStarred k = false := by
  simp only [encloses, Bool.or_eq_true, beq_iff_eq] at h
  rcases h with (rfl | rfl) | rfl <;> exact ⟨rfl, rfl⟩

end

mutual

/-- Whether a tree is built from names, attributes, subscripts, starred targets and groups of targets. -/
def isTarget : Tree → Bool
  | .node k _ _ cs =>
    k == .identifier || isPlace k || (k == .asPatternTarget && cs.isEmpty) ||
      ((isGroup k || ((isStarred k || encloses k) && cs.length == 1)) && isTargetAll cs)

/-- Whether several trees are targets. -/
def isTargetAll : List Tree → Bool
  | [] => true
  | t :: ts => isTarget t && isTargetAll ts

end

theorem isTargetAll_iff {ts : List Tree} : isTargetAll ts = true ↔ ∀ t ∈ ts, isTarget t = true := by
  induction ts with
  | nil => simp [isTargetAll]
  | cons t ts ih => simp [isTargetAll, ih]

theorem isTarget_iff {t : Tree} : isTarget t = true ↔
    t.kind = .identifier ∨ isPlace t.kind = true ∨
      (t.kind = .asPatternTarget ∧ t.children = []) ∨
      ((isGroup t.kind = true ∨
        (isStarred t.kind = true ∨ encloses t.kind = true) ∧ t.children.length = 1) ∧
        ∀ c ∈ t.children, isTarget c = true) := by
  obtain ⟨k, r, s, cs⟩ := t
  rw [isTarget]
  simp only [Bool.or_eq_true, Bool.and_eq_true, beq_iff_eq, List.isEmpty_iff, isTargetAll_iff, or_assoc]
  rfl

/-- The forms of a target. -/
inductive TargetForm (t : Tree) : Prop
  | name (hkind : t.kind = .identifier)
  | bare (hkind : t.kind = .asPatternTarget) (hleaf : t.children = [])
  | place (hkind : isPlace t.kind = true)
  | starred {c : Tree} (hkind : isStarred t.kind = true) (hc : t.children = [c])
    (h : isTarget c = true)
  | enclosed {c : Tree} (hkind : encloses t.kind = true) (hsingle : isGroup t.kind = false)
    (hc : t.children = [c]) (h : isTarget c = true)
  | group (hkind : isGroup t.kind = true) (h : ∀ c ∈ t.children, isTarget c = true)

theorem targetForm_of_isTarget {t : Tree} (h : isTarget t = true) : TargetForm t := by
  by_cases hgroup : isGroup t.kind = true
  · rcases isTarget_iff.1 h with hname | hplace | ⟨hbare, hleaf⟩ | ⟨-, hall⟩
    · exact .name hname
    · exact .place hplace
    · exact .bare hbare hleaf
    · exact .group hgroup hall
  · rcases isTarget_iff.1 h with hname | hplace | ⟨hbare, hleaf⟩ | ⟨hgroup' | ⟨hone, hlength⟩, hall⟩
    · exact .name hname
    · exact .place hplace
    · exact .bare hbare hleaf
    · exact absurd hgroup' hgroup
    · obtain ⟨c, hc⟩ := List.length_eq_one_iff.1 hlength
      have htarget := hall c (by rw [hc]; exact List.mem_singleton_self c)
      rcases hone with hstarred | hencloses
      · exact .starred hstarred hc htarget
      · exact .enclosed hencloses (Bool.eq_false_iff.2 hgroup) hc htarget

/-! ## How many nodes a rule builds -/

section

variable {N : Type} {g : N → Rule N}

/-- How many nodes a rule builds, if it is the same number wherever the rule is read. -/
def Rule.nodeCount? (count? : N → Option Nat) : Rule N → Option Nat
  | .empty | .token _ | .wrap _ _ _ | .become _ | .ahead _ | .notAhead _ => some 0
  | .node _ _ => some 1
  | .ref n => count? n
  | .seq a b =>
    match a.nodeCount? count?, b.nodeCount? count? with
    | some m, some n => some (n + m)
    | _, _ => none
  | .alt a b => if a.nodeCount? count? = b.nodeCount? count? then a.nodeCount? count? else none
  | .many a => if a.nodeCount? count? = some 0 then some 0 else none
  | .role _ a | .only _ a => a.nodeCount? count?

theorem Reads.length_built {count? : N → Option Nat}
    (hg : ∀ n m, count? n = some m → (g n).nodeCount? count? = some m) {rule : Rule N} {us : List Use}
    {f f' : Frame} (h : Reads g rule us f f') :
    ∀ m, rule.nodeCount? count? = some m → f'.built.length = m + f.built.length := by
  induction h with
  | empty | token | manyNil | become | ahead | notAhead | node | wrap =>
    intro m hm
    simp [Rule.nodeCount?] at hm ⊢
    omega
  | seq _ _ iha ihb =>
    intro m hm
    rw [Rule.nodeCount?] at hm
    split at hm
    · next m' n' ha hb =>
      obtain rfl := Option.some.inj hm
      rw [ihb n' hb, iha m' ha, Nat.add_assoc]
    · simp at hm
  | altLeft _ ih =>
    intro m hm
    rw [Rule.nodeCount?] at hm
    split at hm
    · exact ih m hm
    · simp at hm
  | altRight _ ih =>
    intro m hm
    rw [Rule.nodeCount?] at hm
    split at hm
    · next heq => exact ih m (heq ▸ hm)
    · simp at hm
  | manyCons _ _ _ iha ihb =>
    intro m hm
    have hm' := hm
    rw [Rule.nodeCount?] at hm'
    split at hm'
    · next hzero => rw [ihb m hm, iha 0 hzero, Nat.zero_add]
    · simp at hm'
  | ref _ ih => exact fun m hm => ih m (hg _ m hm)
  | role _ ih =>
    intro m hm
    rw [List.length_append, List.length_map, ih m hm]
    rfl
  | only _ _ ih =>
    intro m hm
    rw [List.length_append, ih m hm]
    rfl

end

/-- How many nodes some of the phrases build. -/
def phraseCount? : Phrase → Option Nat
  | .postfixed | .atom | .strings => some 1
  | _ => none

theorem nodeCount?_rule (n : Phrase) (m : Nat) (h : phraseCount? n = some m) :
    (Grammar.rule n).nodeCount? phraseCount? = some m := by
  cases n <;> first | exact h | cases h

/-! ## Rules that build targets -/

/-- Whether a rule builds nothing but targets. -/
def Rule.buildsTargets : Rule Phrase → Bool
  | .empty | .token _ | .ahead _ | .notAhead _ => true
  | .seq a b | .alt a b => a.buildsTargets && b.buildsTargets
  | .many a => a.buildsTargets
  | .ref n => n == .target || n == .targetList
  | .node k a => a.keepsKind && a.buildsTargets &&
      (isGroup k || (isStarred k && a.nodeCount? phraseCount? == some 1))
  | .wrap k r a => a.keepsKind && a.buildsTargets && isGroup k && r.isNone
  | .only ks _ => ks.all fun k => k == .identifier || isPlace k
  | .become _ | .role _ _ => false

theorem buildsTargets_rule (n : Phrase) (h : (Rule.ref n).buildsTargets = true) :
    (Grammar.rule n).buildsTargets = true := by
  cases n <;> first | rfl | simp [Rule.buildsTargets] at h

theorem Reads.isTarget_of_buildsTargets {rule : Rule Phrase} {us : List Use} {f f' : Frame}
    (h : Reads Grammar.rule rule us f f') : rule.buildsTargets = true →
      (∀ t ∈ f.built, isTarget t = true) → ∀ t ∈ f'.built, isTarget t = true := by
  induction h with
  | empty | token | manyNil | ahead | notAhead => exact fun _ hf => hf
  | become | role => simp [Rule.buildsTargets]
  | seq _ _ iha ihb =>
    intro hp hf
    simp only [Rule.buildsTargets, Bool.and_eq_true] at hp
    exact ihb hp.2 (iha hp.1 hf)
  | altLeft _ ih =>
    intro hp
    simp only [Rule.buildsTargets, Bool.and_eq_true] at hp
    exact ih hp.1
  | altRight _ ih =>
    intro hp
    simp only [Rule.buildsTargets, Bool.and_eq_true] at hp
    exact ih hp.2
  | manyCons _ _ _ iha ihb => exact fun hp hf => ihb hp (iha hp hf)
  | ref _ ih => exact fun hp => ih (buildsTargets_rule _ hp)
  | @node k a u us f f' ha ih =>
    intro hp hf t ht
    rcases List.mem_cons.1 ht with rfl | ht
    · simp only [Rule.buildsTargets, Bool.and_eq_true, Bool.or_eq_true, beq_iff_eq] at hp
      obtain ⟨⟨hkeeps, htargets⟩, hkind⟩ := hp
      have hall : ∀ c ∈ f'.built.reverse, isTarget c = true := by
        intro c hc
        exact ih htargets (by simp) c (List.mem_reverse.1 hc)
      refine isTarget_iff.2 (.inr (.inr (.inr ⟨?_, hall⟩)))
      rw [show (Tree.node f'.kind none (u.span us) f'.built.reverse).kind = k from
        ha.kind_eq keepsKind_rule hkeeps]
      refine hkind.imp_right fun ⟨hstarred, hcount⟩ => ⟨.inl hstarred, ?_⟩
      have hlength := ha.length_built nodeCount?_rule 1 hcount
      simpa [Tree.children] using hlength
    · exact hf t ht
  | @wrap k r a u us kind head before f' ha ih =>
    intro hp hf t ht
    rcases List.mem_cons.1 ht with rfl | ht
    · simp only [Rule.buildsTargets, Bool.and_eq_true, Option.isNone_iff_eq_none] at hp
      obtain ⟨⟨⟨hkeeps, htargets⟩, hkind⟩, rfl⟩ := hp
      have hall : ∀ c ∈ f'.built.reverse, isTarget c = true := by
        intro c hc
        refine ih htargets ?_ c (List.mem_reverse.1 hc)
        exact List.forall_mem_singleton.2 (hf head (List.mem_cons_self ..))
      refine isTarget_iff.2 (.inr (.inr (.inr ⟨.inl ?_, hall⟩)))
      rwa [show (Tree.node f'.kind none (head.span.upTo (u.span us)) f'.built.reverse).kind = k from
        ha.kind_eq keepsKind_rule hkeeps]
    · exact hf t (List.mem_cons_of_mem _ ht)
  | @only ks a us f f' _ hks _ =>
    intro hp hf t ht
    rcases List.mem_append.1 ht with ht | ht
    · have hkind := List.all_eq_true.1 hp t.kind (hks t ht)
      rw [Bool.or_eq_true, beq_iff_eq] at hkind
      exact isTarget_iff.2 (hkind.imp_right .inl)
    · exact hf t ht

/-! ## What stands on the left -/

/-- Whether what a rule puts on the left is built by a rule that builds targets. -/
def Rule.leftIsTarget : Rule Phrase → Bool
  | .role .left a => a.buildsTargets
  | .wrap _ r _ => r != some .left
  | _ => true

/-- A node that stands on the left is a target. -/
def LeftIsTarget (x : Tree) : Prop := x.role = some .left → isTarget x = true

theorem leftIsTarget_withRole {t : Tree} {r : Role} (hr : r = .left → isTarget t = true)
    (h : ∀ x ∈ t.nodes, LeftIsTarget x) : ∀ x ∈ (t.withRole r).nodes, LeftIsTarget x := by
  obtain ⟨kind, role, span, children⟩ := t
  intro x hx
  rcases Tree.mem_nodes.1 hx with rfl | ⟨c, hc, hx⟩
  · intro hrole
    exact hr (Option.some.inj hrole)
  · exact h x (Tree.mem_nodes.2 (.inr ⟨c, hc, hx⟩))

theorem Reads.leftIsTarget {rule : Rule Phrase} {us : List Use} {f f' : Frame}
    (h : Reads Grammar.rule rule us f f') : rule.every Rule.leftIsTarget = true →
      (∀ x ∈ Tree.nodesAll f.built, LeftIsTarget x) →
      ∀ x ∈ Tree.nodesAll f'.built, LeftIsTarget x := by
  induction h with
  | empty | token | manyNil | become | ahead | notAhead => exact fun _ hf => hf
  | seq _ _ iha ihb =>
    intro hp hf
    simp only [Rule.every, Bool.and_eq_true] at hp
    exact ihb hp.2.2 (iha hp.2.1 hf)
  | altLeft _ ih =>
    intro hp
    simp only [Rule.every, Bool.and_eq_true] at hp
    exact ih hp.2.1
  | altRight _ ih =>
    intro hp
    simp only [Rule.every, Bool.and_eq_true] at hp
    exact ih hp.2.2
  | manyCons _ _ _ iha ihb =>
    intro hp hf
    have hp' := hp
    simp only [Rule.every, Bool.and_eq_true] at hp'
    exact ihb hp (iha hp'.2 hf)
  | @ref n _ _ _ _ ih => exact fun _ => ih (by cases n <;> rfl)
  | node _ ih =>
    intro hp hf x hx
    simp only [Rule.every, Bool.and_eq_true] at hp
    have hinner := ih hp.2 (by simp)
    rw [Tree.nodesAll_cons, List.mem_append, Tree.mem_nodes] at hx
    rcases hx with (rfl | ⟨c, hc, hx⟩) | hx
    · intro hrole
      cases hrole
    · exact hinner x (Tree.mem_nodesAll.2 ⟨c, List.mem_reverse.1 hc, hx⟩)
    · exact hf x hx
  | @wrap k r a u us kind head before f' _ ih =>
    intro hp hf x hx
    simp only [Rule.every, Bool.and_eq_true] at hp
    have hhead : ∀ x ∈ head.nodes, LeftIsTarget x := fun x hx => hf x (List.mem_append_left _ hx)
    have hinner := ih hp.2 (by
      rw [Tree.nodesAll_cons, Tree.nodesAll_nil, List.append_nil]
      cases r with
      | none => exact hhead
      | some r =>
        refine leftIsTarget_withRole (fun hr => ?_) hhead
        simp [Rule.leftIsTarget, hr] at hp)
    rw [Tree.nodesAll_cons, List.mem_append, Tree.mem_nodes] at hx
    rcases hx with (rfl | ⟨c, hc, hx⟩) | hx
    · intro hrole
      cases hrole
    · exact hinner x (Tree.mem_nodesAll.2 ⟨c, List.mem_reverse.1 hc, hx⟩)
    · exact hf x (List.mem_append_right _ hx)
  | @role r a us f f' ha ih =>
    intro hp hf x hx
    simp only [Rule.every, Bool.and_eq_true] at hp
    have hinner := ih hp.2 (by simp)
    obtain ⟨t, ht, hx⟩ := Tree.mem_nodesAll.1 hx
    rcases List.mem_append.1 ht with ht | ht
    · obtain ⟨t, hbuilt, rfl⟩ := List.mem_map.1 ht
      have ht : ∀ x ∈ t.nodes, LeftIsTarget x := fun x hx =>
        hinner x (Tree.mem_nodesAll.2 ⟨t, hbuilt, hx⟩)
      refine leftIsTarget_withRole ?_ ht x hx
      rintro rfl
      exact ha.isTarget_of_buildsTargets hp.1 (by simp) t hbuilt
    · exact hf x (Tree.mem_nodesAll.2 ⟨t, ht, hx⟩)
  | only _ _ ih =>
    intro hp hf x hx
    simp only [Rule.every, Bool.and_eq_true] at hp
    have hinner := ih hp.2 (by simp)
    obtain ⟨t, ht, hx⟩ := Tree.mem_nodesAll.1 hx
    rcases List.mem_append.1 ht with ht | ht
    · exact hinner x (Tree.mem_nodesAll.2 ⟨t, ht, hx⟩)
    · exact hf x (Tree.mem_nodesAll.2 ⟨t, ht, hx⟩)

section

variable {source : Text} {root x t : Tree}

/-- What stands on the left of an assignment, of a change in place or of a loop is a target. -/
theorem isTarget_of_left (h : parse source = .ok root) (hx : x ∈ root.nodes)
    (ht : x.child? .left = some t) : isTarget t = true := by
  obtain ⟨ps, us, k, -, -, hreads⟩ := exists_reads_of_parse h
  have hall := hreads.leftIsTarget rfl (by simp)
  have hmem : t ∈ x.children := List.mem_of_find?_eq_some ht
  have hrole : t.role = some .left := beq_iff_eq.1 (List.find?_some ht :)
  rcases Tree.mem_nodes.1 hx with rfl | ⟨c, hc, hx⟩
  · exact hall t (Tree.mem_nodesAll.2 ⟨t, List.mem_reverse.2 hmem, t.self_mem_nodes⟩) hrole
  · have ht' := Tree.mem_nodes_trans hx (Tree.mem_nodes.2 (.inr ⟨t, hmem, t.self_mem_nodes⟩))
    exact hall t (Tree.mem_nodesAll.2 ⟨c, List.mem_reverse.2 hc, ht'⟩) hrole

end

end Redeploy.Syntax
