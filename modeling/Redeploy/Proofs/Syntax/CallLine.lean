import Redeploy.Proofs.Syntax.Lines

set_option autoImplicit false

/-! # Calls as statements

A call of an attribute of a name is a script of one statement, as long as the name is none of the words
that a statement or an operand begins with (`IsNamedCall.fillsLine`). The words that begin a statement
only if the rest of it fits (`match`, `type`, `async` and those of former versions) are names here: what
stands behind them in such a statement does not begin with a point (`outcome_none_of_point`). -/

namespace Redeploy.Syntax

section

variable {x : Stage} {o p : Token} {us R : List Token} {t : Tree} {r : Rule Phrase} {ws : List String}

/-! ## Rules that begin with a word of their own -/

/-- Whether a rule reads no name but those of some words. -/
def Rule.begins (ws : List String) : Rule Phrase → Bool
  | .token (.word vs) => vs.all ws.contains
  | .token (.symbol _) => true
  | .seq a _ | .node _ a | .role _ a => a.begins ws
  | _ => false

theorem onset_of_begins (ho : o.kind = .word) (hws : (Terminal.word ws).accepts o = false)
    (hr : r.begins ws = true) : r.onset o = .refused := by
  induction r with
  | token test =>
    cases test with
    | word vs =>
      have hvs : (Terminal.word vs).accepts o = false := by
        simp only [Terminal.accepts, ho, beq_self_eq_true, Bool.true_and, List.any_eq_false] at hws ⊢
        intro v hv
        exact hws v (List.contains_iff_mem.1 (List.all_eq_true.1 hr v hv))
      simp [Rule.onset, hvs]
    | symbol ss => simp [Rule.onset, Terminal.accepts, ho]
    | wordExcept | kind => simp [Rule.begins] at hr
  | seq a b iha => simp [Rule.onset, iha hr]
  | node k a iha => simp [Rule.onset, iha hr]
  | role q a iha => exact iha hr
  | _ => simp [Rule.begins] at hr

/-! ## What no expression begins with -/

/-- Whether a test is passed by a point. -/
def Terminal.isPoint : Terminal → Bool
  | .symbol ss => ss.contains "."
  | .kind k => k == .symbol
  | _ => false

theorem isPoint_of_accepts {test : Terminal} (hp : (Terminal.symbol ["."]).accepts p = true)
    (h : test.accepts p = true) : test.isPoint = true := by
  obtain ⟨span, rfl⟩ := Terminal.eq_of_accepts_symbol hp
  cases test with
  | symbol ss =>
    simp only [Terminal.accepts, beq_self_eq_true, Bool.true_and, List.any_eq_true, beq_iff_eq] at h
    obtain ⟨s, hs, heq⟩ := h
    exact List.contains_iff_mem.2 (String.toList_inj.1 heq ▸ hs)
  | kind k =>
    obtain rfl : TokenKind.symbol = k := by simpa [Terminal.accepts] using h
    rfl
  | word | wordExcept => simp [Terminal.accepts] at h

/-- How phrases begin with a point. -/
def pointEdge : Phrase → Edge
  | .statement | .simpleStatements | .suite => ⟨false, true, false⟩
  | _ => .unmarked

/-- No rule whose edge says so is read where a point comes next. -/
theorem outcome_none_of_point (hp : (Terminal.symbol ["."]).accepts p = true) (hrest : x.rest = p :: R)
    (hr : r.consumes = true)
    (hedge : (r.edge (fun _ => false) Terminal.isPoint pointEdge).starts = false) :
    outcome r x = none := by
  cases houtcome : outcome r x with
  | none => rfl
  | some y =>
    obtain ⟨d, s, hread, rfl⟩ := exists_read_of_outcome houtcome
    obtain ⟨vs, hreads, hcons⟩ := reads_of_read hread
    obtain ⟨v, vs, rfl⟩ := List.exists_cons_of_ne_nil (hreads.ne_nil hr)
    have hfirst : p = v.token := by
      have heq := hrest.symm.trans hcons.rest
      exact (List.cons.inj heq).1
    have hstarts := hreads.starts_eq_false Terminal.isPoint pointEdge (fun n => by cases n <;> rfl)
      hedge v rfl
    have hacc := hreads.accepts v (List.mem_cons_self ..)
    rw [← hfirst] at hacc
    rw [isPoint_of_accepts hp hacc] at hstarts
    simp at hstarts

/-! ## A name in front of a point -/

/-- Tokens that are a call of an attribute of a name, which is none of the words that a statement begins
    with. -/
structure IsNamedCall (o p : Token) (us : List Token) (t : Tree) : Prop where
  operand : IsOperand (o :: p :: us) t
  kind : t.kind = .call
  name : o.kind = .word
  noKeyword : (Terminal.word Grammar.statementKeywords).accepts o = false
  point : (Terminal.symbol ["."]).accepts p = true

/-- A word that is read leaves what is behind it. -/
theorem eq_behind_of_outcome_word {y : Stage} {w : String} (hrest : x.rest = o :: R)
    (h : outcome (Grammar.word w) x = some y) : y = x.behind o R := by
  rw [Grammar.word, outcome_eq, Rule.outcomeBy, hrest] at h
  dsimp only at h
  split at h
  · exact (Option.some.inj h).symm
  · simp at h

namespace IsNamedCall

variable (h : IsNamedCall o p us t) (hrest : x.rest = o :: p :: us ++ R)

include h hrest

theorem outcome_none (hr : r.begins Grammar.statementKeywords = true) : outcome r x = none :=
  outcome_none_of_onset hrest (onset_of_begins h.name h.noKeyword hr)

/-- A rule that begins with a word, and goes on with what no point is. -/
theorem outcome_word_none {w : String} {a b : Rule Phrase} (ha : a.consumes = true)
    (hedge : (a.edge (fun _ => false) Terminal.isPoint pointEdge).starts = false) :
    outcome (.seq (Grammar.word w) (.seq a b)) x = none := by
  rw [outcome_seq]
  cases hw : outcome (Grammar.word w) x with
  | none => rfl
  | some y =>
    rw [eq_behind_of_outcome_word hrest hw, Option.bind_some]
    exact outcome_seq_none (outcome_none_of_point h.point rfl ha hedge)

/-- A rule that may begin with a word, and goes on with one of the words that a statement begins with. -/
theorem outcome_optional_none {v w : String} (hw : w ∈ Grammar.statementKeywords) (a : Rule Phrase) :
    outcome (.seq (Grammar.optional (Grammar.word v)) (.seq (Grammar.word w) a)) x = none := by
  have hkeyword : (Rule.seq (Grammar.word w) a).begins Grammar.statementKeywords = true := by
    simpa [Rule.begins, Grammar.word] using hw
  rw [outcome_seq, Grammar.optional, outcome_alt, outcome_empty]
  cases hv : outcome (Grammar.word v) x with
  | none => exact h.outcome_none hrest hkeyword
  | some y =>
    rw [eq_behind_of_outcome_word hrest hv]
    obtain ⟨span, rfl⟩ := Terminal.eq_of_accepts_symbol h.point
    exact outcome_seq_none (outcome_none_of_onset (r := Grammar.word w) rfl rfl)

/-- A call is no target. -/
theorem outcome_target_none (hR : Clear continuations R) : outcome (.ref .target) x = none := by
  have hplace : outcome (.only [.identifier, .attributeAccess, .subscript] (.ref .postfixed)) x =
      none := by
    have hstands : (Rule.ref .postfixed).Stands continuations (o :: p :: us) t :=
      h.operand.chained.stands (by simp [continuations]) (by simp [continuations])
    rw [outcome_only, hstands.yields (x.under x.kind []) R hrest hR, Option.bind_some]
    simp [Stage.extend, Stage.past, Stage.under, h.kind]
  have hsymbol : ∀ {r : Rule Phrase}, r.begins [] = true → outcome r x = none := fun hr =>
    outcome_none_of_onset hrest (onset_of_begins h.name (by simp [Terminal.accepts]) hr)
  rw [outcome_ref]
  exact outcome_alt_none (hsymbol rfl) (outcome_alt_none hplace
    (outcome_alt_none (hsymbol rfl) (hsymbol rfl)))

theorem outcome_compound_none : ∀ r ∈ compoundStatements, outcome r x = none := by
  intro r hr
  simp only [compoundStatements, List.mem_cons, List.not_mem_nil, or_false] at hr
  have hnode : ∀ k, (x.under k []).rest = o :: p :: us ++ R := fun _ => hrest
  rcases hr with rfl | rfl | rfl | rfl | rfl | rfl | rfl | rfl | rfl
  case inr.inl | inr.inr.inr.inr.inl | inr.inr.inr.inr.inr.inl =>
    exact outcome_node_none (h.outcome_optional_none (hnode _) (by decide) _)
  case inr.inr.inr.inr.inr.inr.inr.inr =>
    exact outcome_node_none (h.outcome_word_none (hnode _) rfl rfl)
  all_goals exact h.outcome_none hrest rfl

omit hrest in
/-- Where a line ends behind the call, nothing else is read in its place. -/
theorem fillsLine {mark : Token} (hmark : mark.kind = .newline) : FillsLine (o :: p :: us) t mark where
  stands := h.operand.isExpression.stands
  noKeyword := clear_cons.2 (List.forall_mem_singleton.2 h.noKeyword)
  noRival := by
    intro x hrest r hr
    have hend : Clear continuations [mark] :=
      clear_cons.2 (by simp [continuations, Terminal.accepts, hmark])
    rcases List.mem_append.1 hr with hr | hr
    · rcases List.mem_append.1 hr with hr | hr
      · exact h.outcome_compound_none hrest r hr
      · rcases List.mem_append.1 hr with hr | hr
        · have hall : ∀ r ∈ Grammar.importStatements ++ Grammar.keywordStatements,
            r.begins Grammar.statementKeywords = true := by decide
          exact h.outcome_none hrest (hall r hr)
        · obtain rfl := List.mem_singleton.1 hr
          exact outcome_seq_none (outcome_node_none (h.outcome_word_none
            (x := x.under .typeAliasStatement []) hrest rfl rfl))
    · simp only [List.mem_cons, List.not_mem_nil, or_false] at hr
      rcases hr with rfl | rfl
      · rw [outcome_ref]
        refine outcome_node_none (outcome_seq_none (outcome_role_none ?_))
        rw [outcome_ref]
        exact outcome_seq_none (h.outcome_target_none hrest hend)
      · rw [outcome_ref]
        refine outcome_node_none_of_clear (F := operandHeads) ?_ (by simp [operandHeads, closedHeads])
        rw [hrest]
        exact h.operand.head.append (by simp)
  mark := hmark

end IsNamedCall

end

/-- A call of an attribute of a name, on one line, is a script of one statement. -/
theorem parse_namedCall {w id : Text} {ls : List Lexeme} {t : Tree}
    (hscan : scan w = ⟨.token .word, id⟩ :: ⟨.token .symbol, ['.']⟩ :: (ls ++ [⟨.token .symbol, [')']⟩]))
    (hline : ∀ l ∈ scan w, l.kind ≠ .lineBreak) (ht : IsOperand (tokensFrom .start (scan w)) t)
    (hkind : t.kind = .call) (hid : ∀ v ∈ Grammar.statementKeywords, id ≠ v.toList) : ∃ s s',
      parse w = .ok (.node .module none s [.node .expressionStatement none s' [t]]) := by
  have hlast := getLast?_tokensFrom .start
    (⟨.token .word, id⟩ :: ⟨.token .symbol, ['.']⟩ :: ls) .symbol [')']
  rw [hscan] at hline ht
  obtain ⟨mark, hmark, htokens⟩ :=
    tokensOf_line (fun l hl => hline l (List.mem_cons_of_mem _ hl)) hlast rfl
  rw [tokensFrom_cons, tokensFrom_cons] at ht
  have hcall : IsNamedCall _ _ _ t := {
    operand := ht
    kind := hkind
    name := rfl
    noKeyword := by simpa [Terminal.accepts] using hid
    point := rfl }
  have hread := (hcall.fillsLine hmark).readTokens
  rw [List.cons_append, List.cons_append] at hread
  rw [tokensFrom_cons, tokensFrom_cons, List.cons_append, List.cons_append] at htokens
  rw [← htokens, ← hscan] at hread
  exact ⟨_, _, parse_of_readTokens hread⟩

end Redeploy.Syntax
