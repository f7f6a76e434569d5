import Redeploy.Proofs.Syntax.Built
import Redeploy.Proofs.Syntax.Imports

set_option autoImplicit false

/-! # Import statements of a tree

The names of an import from a module that is a node of a tree: each of them is the node of an imported
name over a row of the tokens (`Reads.exists_importName`). The lemmas take a reading apart along the rule
that it follows. -/

namespace Redeploy.Syntax

section

variable {us : List Use} {f f' : Frame}

theorem Use.span_eq (u : Use) (us : List Use) : u.span us = spanOf (Use.tokens (u :: us)) := by
  rw [spanOf, Use.tokens, List.map_cons, List.getLastD_cons, Use.span]
  simp only [List.getLastD_eq_getLast?, List.getLast?_map]
  cases us.getLast? <;> rfl

theorem Reads.of_leaf {k : Kind} {test : Terminal} (h : Reads Grammar.rule (Grammar.leaf k test) us f f') :
    ∃ o : Token, test.accepts o = true ∧ Use.tokens us = [o] ∧
      f' = ⟨f.kind, .node k none o.span [] :: f.built⟩ := by
  cases h with
  | node ha =>
    have hacc := ha.accepts
    obtain ⟨rfl, o, heq⟩ := ha.exists_of_token
    obtain ⟨rfl, rfl⟩ := List.cons.inj heq
    exact ⟨o, hacc _ (List.mem_cons_self ..), rfl, rfl⟩

theorem Reads.of_anyName (h : Reads Grammar.rule Grammar.anyName us f f') :
    ∃ o : Token, o.kind = .word ∧ Use.tokens us = [o] ∧
      f' = ⟨f.kind, .node .identifier none o.span [] :: f.built⟩ := by
  obtain ⟨o, hacc, hus, hf⟩ := h.of_leaf
  exact ⟨o, by simpa [Terminal.accepts] using hacc, hus, hf⟩

theorem Reads.tokens_of_token {test : Terminal} (h : Reads Grammar.rule (.token test) us f f') :
    ∃ o : Token, test.accepts o = true ∧ Use.tokens us = [o] ∧ f' = f := by
  have hacc := h.accepts
  obtain ⟨rfl, o, rfl⟩ := h.exists_of_token
  exact ⟨o, hacc _ (List.mem_cons_self ..), rfl, rfl⟩

/-! ## Dotted names -/

theorem nameNodes_word {n : Token} (hn : n.kind = .word) (ts : List Token) :
    nameNodes (n :: ts) = .node .identifier none n.span [] :: nameNodes ts := by
  simp [nameNodes, hn]

theorem nameNodes_symbol {o : Token} (ho : (Terminal.symbol ["."]).accepts o = true) (ts : List Token) :
    nameNodes (o :: ts) = nameNodes ts := by
  obtain ⟨span, rfl⟩ := Terminal.eq_of_accepts_symbol ho
  simp [nameNodes]

/-- A repetition is read in turns. -/
theorem Reads.many_induction {a : Rule Phrase} {P : List Use → Frame → Frame → Prop}
    (hnil : ∀ f, P [] f f)
    (hcons : ∀ {us vs : List Use} {f f' f'' : Frame}, Reads Grammar.rule a us f f' → P vs f' f'' →
      P (us ++ vs) f f'')
    (h : Reads Grammar.rule (.many a) us f f') : P us f f' := by
  generalize hrule : Rule.many a = r at h
  induction h with
  | manyNil f => exact hnil f
  | manyCons _ ha _ _ ih =>
    obtain rfl := Rule.many.inj hrule
    exact hcons ha (ih hrule)
  | _ => simp at hrule

theorem Reads.attributes
    (h : Reads Grammar.rule (.many (.seq (Grammar.symbol ".") Grammar.anyName)) us f f') :
    Attributes (Use.tokens us) ∧
      f' = ⟨f.kind, (nameNodes (Use.tokens us)).reverse ++ f.built⟩ := by
  refine h.many_induction (P := fun us f f' => Attributes (Use.tokens us) ∧
    f' = ⟨f.kind, (nameNodes (Use.tokens us)).reverse ++ f.built⟩) (fun f => ⟨.nil, rfl⟩) ?_
  rintro us vs f _ f'' hone ⟨hmore, rfl⟩
  obtain ⟨_, _, _, rfl, hpoint, hname⟩ := hone.exists_of_seq
  obtain ⟨o, ho, htoken, rfl⟩ := hpoint.tokens_of_token
  obtain ⟨n, hn, htoken', rfl⟩ := hname.of_anyName
  rw [Use.tokens_append, Use.tokens_append, htoken, htoken']
  refine ⟨.cons ho hn hmore, ?_⟩
  simp [nameNodes_symbol ho, nameNodes_word hn]

theorem Reads.dottedName (h : Reads Grammar.rule (.ref .dottedName) us f f') :
    IsDotted (Use.tokens us) ∧ f' = ⟨f.kind, dottedNode (Use.tokens us) :: f.built⟩ := by
  have hnode : Reads Grammar.rule (.node .dottedName (.seq Grammar.anyName
    (.many (.seq (Grammar.symbol ".") Grammar.anyName)))) us f f' := h.of_ref
  cases hnode with
  | node hinner =>
    obtain ⟨vs, ws, _, heq, hname, hmore⟩ := hinner.exists_of_seq
    obtain ⟨n, hn, htoken, rfl⟩ := hname.of_anyName
    obtain ⟨hattributes, rfl⟩ := hmore.attributes
    rw [Use.span_eq, heq, Use.tokens_append, htoken]
    refine ⟨.mk hn hattributes, ?_⟩
    rw [dottedNode, List.singleton_append, nameNodes_word hn]
    simp

/-! ## Imported names -/

theorem Reads.asClause {t : Tree} {before : List Tree}
    (h : Reads Grammar.rule ImportName.asClause us ⟨f.kind, t :: before⟩ f') :
    ∃ as o : Token, (Terminal.word ["as"]).accepts as = true ∧ o.kind = .word ∧
      Use.tokens us = [as, o] ∧ f' = ⟨f.kind, .node .aliasedImport none (t.span.upTo o.span)
        [t.withRole .name, .node .identifier (some .asName) o.span []] :: before⟩ := by
  cases h with
  | @wrap _ _ _ u ws _ _ _ _ ha =>
    obtain ⟨xs, ys, _, heq, hword, hnew⟩ := ha.exists_of_seq
    obtain ⟨as, has, htoken, rfl⟩ := hword.tokens_of_token
    cases hnew with
    | role hname =>
      obtain ⟨o, ho, htoken', rfl⟩ := hname.of_anyName
      have htokens : Use.tokens (u :: ws) = [as, o] := by
        rw [heq, Use.tokens_append, htoken, htoken']
        rfl
      refine ⟨as, o, has, ho, htokens, ?_⟩
      rw [Use.span_eq, htokens]
      rfl

theorem Reads.importItem (h : Reads Grammar.rule Grammar.importItem us f f') :
    ∃ i : ImportName, i.IsRead ∧ Use.tokens us = i.tokens ∧ f' = ⟨f.kind, i.node :: f.built⟩ := by
  cases h with
  | role ha =>
    obtain ⟨vs, ws, _, rfl, hname, halias⟩ := ha.exists_of_seq
    obtain ⟨hdotted, rfl⟩ := hname.dottedName
    rcases halias.or_of_alt with hclause | hnone
    · obtain ⟨as, o, has, ho, htokens, rfl⟩ := hclause.asClause
      refine ⟨⟨Use.tokens vs, some (as, o)⟩, ⟨hdotted, by simp [has, ho]⟩, ?_, ?_⟩
      · rw [Use.tokens_append, htokens]
        rfl
      · have hspan := spanOf_append hdotted.stands.ne_nil (List.cons_ne_nil as [o])
        simp only [ImportName.node, ImportName.tokens, Option.map_some, Option.getD_some, hspan]
        rfl
    · obtain ⟨rfl, rfl⟩ := hnone.of_empty
      exact ⟨⟨Use.tokens vs, none⟩, ⟨hdotted, by simp⟩, by simp [ImportName.tokens], rfl⟩

/-- What is built in the role of a name is what has been built before, and names that are imported. -/
def AddsNames (us : List Use) (f f' : Frame) : Prop :=
  ∀ c ∈ f'.built, c.role = some .name → c ∈ f.built ∨
    ∃ i : ImportName, i.IsRead ∧ c = i.node ∧ i.tokens <:+: Use.tokens us

theorem addsNames_self (us : List Use) (f : Frame) : AddsNames us f f := fun _ hc _ => .inl hc

theorem AddsNames.trans {vs : List Use} {f'' : Frame} (h : AddsNames us f f') (h' : AddsNames vs f' f'') :
    AddsNames (us ++ vs) f f'' := by
  intro c hc hrole
  rw [Use.tokens_append]
  rcases h' c hc hrole with hc | ⟨i, hi, rfl, hrow⟩
  · rcases h c hc hrole with hc | ⟨i, hi, rfl, hrow⟩
    · exact .inl hc
    · exact .inr ⟨i, hi, rfl, hrow.trans (List.prefix_append _ _).isInfix⟩
  · exact .inr ⟨i, hi, rfl, hrow.trans (List.suffix_append _ _).isInfix⟩

theorem Reads.addsNames_token {test : Terminal} (h : Reads Grammar.rule (.token test) us f f') :
    AddsNames us f f' := by
  obtain ⟨rfl, -⟩ := h.exists_of_token
  exact addsNames_self us f'

theorem Reads.addsNames_item (h : Reads Grammar.rule Grammar.importItem us f f') : AddsNames us f f' := by
  obtain ⟨i, hi, hus, rfl⟩ := h.importItem
  intro c hc _
  rcases List.mem_cons.1 hc with rfl | hc
  · exact .inr ⟨i, hi, rfl, hus ▸ List.infix_refl _⟩
  · exact .inl hc

theorem Reads.addsNames_list (h : Reads Grammar.rule (.ref .importList) us f f') : AddsNames us f f' := by
  have hlist : Reads Grammar.rule (Grammar.commaList Grammar.importItem) us f f' := h.of_ref
  obtain ⟨_, _, _, rfl, hsome, hend⟩ := hlist.exists_of_seq
  obtain ⟨_, _, _, rfl, hfirst, hmore⟩ := hsome.exists_of_seq
  have hrest := hmore.many_induction (P := AddsNames) (addsNames_self []) fun hone hmore => by
    obtain ⟨_, _, _, rfl, hcomma, hitem⟩ := hone.exists_of_seq
    exact (hcomma.addsNames_token.trans hitem.addsNames_item).trans hmore
  refine (hfirst.addsNames_item.trans hrest).trans ?_
  rcases hend.or_of_alt with hcomma | hnone
  · exact hcomma.addsNames_token
  · obtain ⟨rfl, rfl⟩ := hnone.of_empty
    exact addsNames_self _ _

theorem Reads.addsNames_role {a : Rule Phrase} {r : Role} (h : Reads Grammar.rule (.role r a) us f f')
    (hr : r ≠ .name) : AddsNames us f f' := by
  cases h with
  | role =>
    intro c hc hrole
    rcases List.mem_append.1 hc with hc | hc
    · obtain ⟨⟨kind, _, span, children⟩, -, rfl⟩ := List.mem_map.1 hc
      exact absurd (Option.some.inj hrole) hr
    · exact .inl hc

theorem Reads.addsNames_leaf {k : Kind} {test : Terminal}
    (h : Reads Grammar.rule (.node k (.token test)) us f f') : AddsNames us f f' := by
  obtain ⟨o, -, -, rfl⟩ := h.of_leaf
  intro c hc hrole
  rcases List.mem_cons.1 hc with rfl | hc
  · simp [Tree.role] at hrole
  · exact .inl hc

/-! ## Statements -/

/-- Whether a rule reads an import from a module. -/
def Rule.isImportFrom : Rule Phrase → Bool
  | .seq (.token _) (.seq (.notAhead _) (.seq (.role .moduleName _) (.seq (.token _)
      (.alt (.node _ (.token _)) (.alt (.seq (.token _) (.seq (.ref .importList) (.token _)))
        (.ref .importList)))))) => true
  | _ => false

theorem Reads.addsNames_of_isImportFrom {rule : Rule Phrase} (h : Reads Grammar.rule rule us f f')
    (hrule : rule.isImportFrom = true) : AddsNames us f f' := by
  unfold Rule.isImportFrom at hrule
  split at hrule
  · obtain ⟨_, _, _, rfl, hfrom, hbehindFrom⟩ := h.exists_of_seq
    obtain ⟨_, _, _, rfl, hahead, hbehindAhead⟩ := hbehindFrom.exists_of_seq
    obtain ⟨rfl, rfl⟩ := hahead.of_isSilent rfl
    obtain ⟨_, _, _, rfl, hmodule, hbehindModule⟩ := hbehindAhead.exists_of_seq
    obtain ⟨_, _, _, rfl, himport, hnames⟩ := hbehindModule.exists_of_seq
    refine hfrom.addsNames_token.trans ((hmodule.addsNames_role (by simp)).trans
      (himport.addsNames_token.trans ?_))
    rcases hnames.or_of_alt with hall | hnames
    · exact hall.addsNames_leaf
    rcases hnames.or_of_alt with hbrackets | hlist
    · obtain ⟨_, _, _, rfl, hopen, hlist⟩ := hbrackets.exists_of_seq
      obtain ⟨_, _, _, rfl, hlist, hclose⟩ := hlist.exists_of_seq
      exact hopen.addsNames_token.trans (hlist.addsNames_list.trans hclose.addsNames_token)
    · exact hlist.addsNames_list
  · simp at hrule

/-- The names of an import from a module stand over rows of the tokens. -/
theorem Reads.exists_importName {rule : Rule Phrase} (h : Reads Grammar.rule rule us f f')
    (hrule : rule.every (Rule.makes (· == .importFromStatement) Rule.isImportFrom) = true)
    (hf : f.built = []) {x : Tree} (hx : x ∈ Tree.nodesAll f'.built)
    (hkind : x.kind = .importFromStatement) : ∀ c ∈ x.childrenIn .name,
      ∃ i : ImportName, i.IsRead ∧ c = i.node ∧ i.tokens <:+: Use.tokens us := by
  refine h.forall_made (P := fun x => ∀ c ∈ x.childrenIn .name,
    ∃ i : ImportName, i.IsRead ∧ c = i.node ∧ i.tokens <:+: Use.tokens us)
    (Q := fun vs => Use.tokens vs <:+: Use.tokens us) (· == .importFromStatement) Rule.isImportFrom
    ?_ ?_ ?_ (fun n => by cases n <;> rfl) hrule (List.infix_refl _) hf x hx (beq_iff_eq.2 hkind)
  · rintro r ⟨kind, role, span, children⟩ ht
    exact ht
  · intro k a u vs f _ hfrom ha hrow c hc
    obtain ⟨hc, hrole⟩ := List.mem_filter.1 hc
    rcases ha.addsNames_of_isImportFrom hfrom c (List.mem_reverse.1 hc) (beq_iff_eq.1 hrole) with
      hnone | ⟨i, hi, rfl, hinfix⟩
    · simp at hnone
    · exact ⟨i, hi, rfl, hinfix.trans hrow⟩
  · rintro vs ws hrow
    rw [Use.tokens_append] at hrow
    exact ⟨(List.prefix_append _ _).isInfix.trans hrow, (List.suffix_append _ _).isInfix.trans hrow⟩

end

end Redeploy.Syntax
