import Redeploy.Proofs.Syntax.Parsed

set_option autoImplicit false

/-! # What some nodes are made of

Three facts about the tree of a script that are read off the rules that make nodes of a kind
(`Reads.forall_made`): an identifier has no nodes below it (`children_of_identifier`), a lambda has no
name (`name_of_lambda`), and there is no call in an import statement (`kind_ne_call_of_import`). The last
two rest on a test of the parts of a rule that is closed under the references that the rule makes. -/

namespace Redeploy.Syntax

variable {N : Type} {g : N → Rule N}

/-! ## Some of the rules -/

/-- Whether a rule refers to some of the other rules only. -/
def Rule.refersTo (p : N → Bool) : Rule N → Bool
  | .ref n => p n
  | .seq a b | .alt a b => a.refersTo p && b.refersTo p
  | .many a | .node _ a | .wrap _ _ a | .role _ a | .only _ a => a.refersTo p
  | .empty | .token _ | .become _ | .ahead _ | .notAhead _ => true

/-- The grammar without the rules outside a set. -/
def restrict (g : N → Rule N) (p : N → Bool) (n : N) : Rule N :=
  if p n then g n else .empty

/-- Reading by a rule takes no other rules than those that it refers to. -/
theorem Reads.restrict {p : N → Bool} (hg : ∀ n, p n = true → (g n).refersTo p = true)
    {rule : Rule N} {us : List Use} {f f' : Frame} (h : Reads g rule us f f') :
    rule.refersTo p = true → Reads (restrict g p) rule us f f' := by
  induction h with
  | empty f => exact fun _ => .empty f
  | token f h => exact fun _ => .token f h
  | manyNil f => exact fun _ => .manyNil f
  | become f => exact fun _ => .become f
  | ahead f => exact fun _ => .ahead f
  | notAhead f => exact fun _ => .notAhead f
  | seq _ _ iha ihb =>
    intro hp
    simp only [Rule.refersTo, Bool.and_eq_true] at hp
    exact .seq (iha hp.1) (ihb hp.2)
  | altLeft _ ih =>
    intro hp
    simp only [Rule.refersTo, Bool.and_eq_true] at hp
    exact .altLeft (ih hp.1)
  | altRight _ ih =>
    intro hp
    simp only [Rule.refersTo, Bool.and_eq_true] at hp
    exact .altRight (ih hp.2)
  | manyCons hne _ _ iha ihb => exact fun hp => .manyCons hne (iha hp) (ihb hp)
  | @ref n _ _ _ _ ih =>
    intro hp
    refine .ref ?_
    have hn : p n = true := hp
    rw [Syntax.restrict, if_pos hn]
    exact ih (hg n hn)
  | node _ ih => exact fun hp => .node (ih hp)
  | wrap _ ih => exact fun hp => .wrap (ih hp)
  | role _ ih => exact fun hp => .role (ih hp)
  | only _ hks ih => exact fun hp => .only (ih hp) hks

/-! ## Roles -/

/-- Whether a rule gives no role to the nodes that it builds. What it does within these nodes does not
    matter. -/
def Rule.isBare (bare : N → Bool) : Rule N → Bool
  | .role _ _ => false
  | .ref n => bare n
  | .seq a b | .alt a b => a.isBare bare && b.isBare bare
  | .many a | .only _ a => a.isBare bare
  | .empty | .token _ | .become _ | .node _ _ | .wrap _ _ _ | .ahead _ | .notAhead _ => true

theorem Reads.role_eq_none {bare : N → Bool} (hg : ∀ n, bare n = true → (g n).isBare bare = true)
    {rule : Rule N} {us : List Use} {f f' : Frame} (h : Reads g rule us f f') :
    rule.isBare bare = true → (∀ t ∈ f.built, t.role = none) → ∀ t ∈ f'.built, t.role = none := by
  induction h with
  | empty | token | manyNil | become | ahead | notAhead => exact fun _ hf => hf
  | seq _ _ iha ihb =>
    intro hp hf
    simp only [Rule.isBare, Bool.and_eq_true] at hp
    exact ihb hp.2 (iha hp.1 hf)
  | altLeft _ ih =>
    intro hp
    simp only [Rule.isBare, Bool.and_eq_true] at hp
    exact ih hp.1
  | altRight _ ih =>
    intro hp
    simp only [Rule.isBare, Bool.and_eq_true] at hp
    exact ih hp.2
  | manyCons _ _ _ iha ihb => exact fun hp hf => ihb hp (iha hp hf)
  | ref _ ih => exact fun hp => ih (hg _ hp)
  | node =>
    intro _ hf t ht
    rcases List.mem_cons.1 ht with rfl | ht
    · rfl
    · exact hf t ht
  | wrap =>
    intro _ hf t ht
    rcases List.mem_cons.1 ht with rfl | ht
    · rfl
    · exact hf t (List.mem_cons_of_mem _ ht)
  | role => simp [Rule.isBare]
  | only _ _ ih =>
    intro hp hf t ht
    rcases List.mem_append.1 ht with ht | ht
    · exact ih hp (by simp) t ht
    · exact hf t ht

/-! ## Identifiers -/

/-- Whether a rule reads one token and builds nothing. -/
def Rule.isToken : Rule N → Bool
  | .token _ => true
  | _ => false

/-- An identifier has no nodes below it: it is made of one token. -/
theorem children_of_identifier {source : Text} {root : Tree} (h : parse source = .ok root) :
    ∀ x ∈ root.nodes, x.kind = .identifier → x.children = [] := by
  obtain ⟨ps, us, k, -, -, hreads⟩ := exists_reads_of_parse h
  have hleaf := hreads.forall_made (P := fun x => x.children = []) (Q := fun _ => True)
    (· == .identifier) Rule.isToken ?_ ?_ (fun _ _ _ => ⟨trivial, trivial⟩)
    (fun n => by cases n <;> rfl) rfl trivial rfl
  · intro x hx hkind
    exact hleaf x (mem_nodesAll_of_parse h hx (by simp [hkind])) (beq_iff_eq.2 hkind)
  · rintro r ⟨kind, role, span, children⟩ ht
    exact ht
  · intro k a u us f _ htoken ha _
    cases a with
    | token t =>
      cases ha
      rfl
    | _ => simp [Rule.isToken] at htoken

/-! ## Lambdas -/

/-- The phrases whose nodes get no role. -/
def isBarePhrase : Phrase → Bool
  | .importList | .rightSide => false
  | _ => true

theorem isBare_rule (n : Phrase) (hn : isBarePhrase n = true) :
    (Grammar.rule n).isBare isBarePhrase = true := by
  cases n <;> first | rfl | simp [isBarePhrase] at hn

/-- A lambda has no name. -/
theorem name_of_lambda {source : Text} {root : Tree} (h : parse source = .ok root) :
    ∀ x ∈ root.nodes, x.kind = .lambda → x.child? .name = none := by
  obtain ⟨ps, us, k, -, -, hreads⟩ := exists_reads_of_parse h
  have hbare := hreads.forall_made (P := fun x => ∀ c ∈ x.children, c.role = none)
    (Q := fun _ => True) (· == .lambda) (Rule.isBare isBarePhrase) ?_ ?_
    (fun _ _ _ => ⟨trivial, trivial⟩) (fun n => by cases n <;> rfl) rfl trivial rfl
  · intro x hx hkind
    rw [Tree.child?, List.find?_eq_none]
    intro d hd
    rw [hbare x (mem_nodesAll_of_parse h hx (by simp [hkind])) (beq_iff_eq.2 hkind) d hd]
    decide
  · rintro r ⟨kind, role, span, children⟩ ht
    exact ht
  · intro k a u us f _ hbare ha _ c hc
    exact ha.role_eq_none isBare_rule hbare (by simp) c (List.mem_reverse.1 hc)

/-! ## Import statements -/

/-- The kinds of import statements. -/
def isImportKind : Kind → Bool
  | .importStatement | .importFromStatement => true
  | _ => false

/-- Whether a rule builds no call itself. -/
def Rule.isCallless : Rule Phrase → Bool :=
  Rule.makes (· == .call) fun _ => false

/-- The phrases that an import statement is made of. -/
def isImportPhrase : Phrase → Bool
  | .importList | .dottedName => true
  | _ => false

theorem refersTo_rule (n : Phrase) (hn : isImportPhrase n = true) :
    (Grammar.rule n).refersTo isImportPhrase = true := by
  cases n <;> first | rfl | simp [isImportPhrase] at hn

/-- What the rules of import statements build are no calls. -/
theorem Reads.kind_ne_call {rule : Rule Phrase} {us : List Use} {f f' : Frame}
    (h : Reads Grammar.rule rule us f f') (hevery : rule.every Rule.isCallless = true)
    (hrefers : rule.refersTo isImportPhrase = true) (hf : f.built = []) :
    ∀ x ∈ Tree.nodesAll f'.built, x.kind ≠ .call := by
  intro x hx hcall
  exact (h.restrict refersTo_rule hrefers).forall_made (P := fun _ => False) (Q := fun _ => True)
    (· == .call) (fun _ => false) (fun _ _ => id) (fun _ hnot _ _ => by simp at hnot)
    (fun _ _ _ => ⟨trivial, trivial⟩)
    (fun n => by cases n <;> rfl) hevery trivial hf x hx (beq_iff_eq.2 hcall)

/-- There is no call in an import statement. -/
theorem kind_ne_call_of_import {source : Text} {root : Tree} (h : parse source = .ok root) :
    ∀ y ∈ root.nodes, isImportKind y.kind = true → ∀ x ∈ y.nodes, x.kind ≠ .call := by
  obtain ⟨ps, us, k, -, -, hreads⟩ := exists_reads_of_parse h
  have hbelow := hreads.forall_made (P := fun y => ∀ x ∈ Tree.nodesAll y.children, x.kind ≠ .call)
    (Q := fun _ => True) isImportKind
    (fun a => a.every Rule.isCallless && a.refersTo isImportPhrase) ?_ ?_
    (fun _ _ _ => ⟨trivial, trivial⟩) (fun n => by cases n <;> rfl) rfl trivial rfl
  · intro y hy himport x hx hcall
    rcases Tree.mem_nodes.1 hx with rfl | hx
    · simp [hcall, isImportKind] at himport
    · have hy' := mem_nodesAll_of_parse h hy fun hmodule => by simp [hmodule, isImportKind] at himport
      exact hbelow y hy' himport x (Tree.mem_nodesAll.2 hx) hcall
  · rintro r ⟨kind, role, span, children⟩ ht
    exact ht
  · intro k a u us f _ hcallless ha _ x hx
    rw [Bool.and_eq_true] at hcallless
    obtain ⟨t, ht, hx⟩ := Tree.mem_nodesAll.1 hx
    exact ha.kind_ne_call hcallless.1 hcallless.2 rfl x
      (Tree.mem_nodesAll.2 ⟨t, List.mem_reverse.1 ht, hx⟩)

end Redeploy.Syntax
