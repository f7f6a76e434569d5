import Redeploy.Proofs.Syntax.Levels

set_option autoImplicit false

/-! # Arguments stand by themselves

The arguments of a call, put together from expressions that stand by themselves. The first argument is
read by another rule than those behind a comma, since a generator may stand in its place. -/

namespace Redeploy.Syntax

open Grammar (word symbol expression)

/-- One argument behind a comma. -/
def argument : Rule Phrase :=
  Grammar.alts [Grammar.keywordArgument, Grammar.dictionarySplat, expression, Grammar.listSplat]

/-- A first argument that is no expression. -/
def markedArgument : Rule Phrase :=
  Grammar.alts [Grammar.keywordArgument, Grammar.dictionarySplat, Grammar.listSplat]

/-- What may follow the first argument. -/
def argumentsRest : Rule Phrase :=
  .seq (.many (.seq (symbol ",") argument)) (.seq (Grammar.optional (symbol ",")) (symbol ")"))

/-- The tests for the tokens that could go on with an argument. -/
def argumentEnd : List Terminal :=
  .symbol ["="] :: continuations

/-- Tokens that begin neither a named argument nor a mapping. -/
structure Unnamed (ts : List Token) : Prop where
  head : Clear [.symbol ["**"]] ts
  next : Clear [.symbol ["="]] ts.tail

section

variable {F : List Terminal} {ts us : List Token} {t u : Tree} {o o' : Token} {cs : List Tree}

/-! ## One argument -/

namespace Rule.Stands

/-- An expression stands by itself as an argument. -/
theorem argument (h : expression.Stands continuations ts t) (hunnamed : Unnamed ts) :
    argument.Stands argumentEnd ts t := by
  refine ((((h.mono (List.subset_cons_self ..)).alt_left).alt_right ?_).alt_right ?_)
  · intro x R hrest _
    exact outcome_node_none_of_clear (hunnamed.head.rest h.ne_nil hrest) (List.mem_cons_self ..)
  · intro x R hrest hclear
    exact outcome_marked_none h.ne_nil hrest hunnamed.next
      (hclear.mono (List.cons_subset_cons _ (List.nil_subset _)))

end Rule.Stands

/-! ## All arguments -/

/-- Arguments behind the first one, each behind a comma. -/
inductive MoreArguments : List Token → List Tree → Prop
  | nil : MoreArguments [] []
  | cons {c : Token} {ts us : List Token} {t : Tree} {cs : List Tree}
      (hc : (Terminal.symbol [","]).accepts c = true) (h : argument.Stands argumentEnd ts t)
      (hrest : MoreArguments us cs) : MoreArguments (c :: ts ++ us) (t :: cs)

namespace MoreArguments

theorem clear (h : MoreArguments us cs) : Clear argumentEnd us := by
  cases h with
  | nil => exact clear_nil
  | cons hc _ _ => exact clear_symbol hc (by decide)

theorem yields (h : MoreArguments us cs) : (Rule.many (.seq (symbol ",") argument)).Yields
    (.symbol [","] :: argumentEnd) us none cs := by
  induction h with
  | nil => exact Rule.yields_many_nil fun x hclear =>
      outcome_seq_none (outcome_token_none_of_clear hclear (List.mem_cons_self ..))
  | cons hc h hrest ih =>
    exact Rule.Yields.many_cons (h.yields.token_then hc) (List.cons_ne_nil _ _) ih hrest.clear
      fun _ => List.subset_cons_self ..

theorem yields_rest (h : MoreArguments us cs) (ho : (Terminal.symbol [")"]).accepts o = true) :
    argumentsRest.Yields [] (us ++ [o]) none cs := by
  have hcomma : (Grammar.optional (symbol ",")).Yields [.symbol [","]] [] none [] :=
    Rule.yields_optional fun x hclear => outcome_token_none_of_clear hclear (List.mem_cons_self ..)
  have hend := hcomma.seq (Rule.yields_token ho) (clear_symbol ho (by decide)) (by simp)
  have hall : argumentsRest.Yields [] _ _ _ := h.yields.seq hend (clear_symbol ho (by decide)) (by simp)
  simpa using hall

end MoreArguments

/-- Behind an argument comes a comma or the closing parenthesis. -/
theorem MoreArguments.head (h : MoreArguments us cs)
    (ho : (Terminal.symbol [")"]).accepts o = true) :
    Clear [.word ["async"], .word ["for"]] (us ++ [o]) := by
  cases h with
  | nil => exact clear_symbol ho (by decide)
  | cons hc _ _ => exact clear_symbol hc (by decide)

/-- No generator begins where no loop does. -/
theorem outcome_comprehension_none {x : Stage}
    (hclear : Clear [.word ["async"], .word ["for"]] x.rest) :
    outcome (.ref .comprehension) x = none := by
  have hasync : (Grammar.optional (word "async")).Yields [.word ["async"]] [] none [] :=
    Rule.yields_optional fun x hclear => outcome_token_none_of_clear hclear (List.mem_cons_self ..)
  rw [outcome_ref]
  refine outcome_seq_none (outcome_node_none ?_)
  show outcome (.seq (Grammar.optional (word "async")) (.seq (word "for") _)) _ = none
  rw [outcome_seq, hasync (x.under .forInClause []) x.rest rfl (hclear.mono (by simp)),
    Option.bind_some]
  exact outcome_seq_none (outcome_token_none_of_clear (F := [.word ["async"], .word ["for"]]) hclear
    (by simp))

/-- The tests for the tokens that the first argument does not begin with, if it is an expression. -/
def markedHeads : List Terminal :=
  [.symbol [","], .symbol [")"], .symbol ["*"], .symbol ["**"]]

/-- The call has arguments where the token behind its parenthesis does not close it. -/
theorem outcome_noArguments_none {x : Stage} (hclear : Clear [.symbol [","], .symbol [")"]] x.rest) :
    outcome (.seq (Grammar.optional (symbol ",")) (symbol ")")) x = none := by
  have hcomma : (Grammar.optional (symbol ",")).Yields [.symbol [","]] [] none [] :=
    Rule.yields_optional fun x hclear => outcome_token_none_of_clear hclear (List.mem_cons_self ..)
  rw [outcome_seq, hcomma x x.rest rfl (hclear.mono (by simp)), Option.bind_some]
  exact outcome_token_none_of_clear (F := [.symbol [","], .symbol [")"]]) hclear (by simp)

namespace Rule.Stands

/-- No arguments. -/
theorem arguments_nil (ho : (Terminal.symbol ["("]).accepts o = true)
    (ho' : (Terminal.symbol [")"]).accepts o' = true) :
    (Rule.ref .arguments).Stands [] [o, o'] (.node .argumentList none (spanOf [o, o']) []) := by
  have hcomma : (Grammar.optional (symbol ",")).Yields [.symbol [","]] [] none [] :=
    yields_optional fun x hclear => outcome_token_none_of_clear hclear (List.mem_cons_self ..)
  have hend := hcomma.seq (yields_token ho') (clear_symbol ho' (by decide)) (by simp)
  exact Stands.ref ((hend.alt_left.token_then ho).node (List.cons_ne_nil _ _) .argumentList)

/-- Arguments of which the first one is an expression. -/
theorem arguments_positional (ho : (Terminal.symbol ["("]).accepts o = true)
    (h : expression.Stands continuations ts t) (hhead : Clear markedHeads ts)
    (hnext : Clear [.symbol ["="]] ts.tail) (hmore : MoreArguments us cs)
    (ho' : (Terminal.symbol [")"]).accepts o' = true) :
    (Rule.ref .arguments).Stands [] (o :: (ts ++ (us ++ [o'])))
      (.node .argumentList none (spanOf (o :: (ts ++ (us ++ [o'])))) (t :: cs)) := by
  have hfollow : Clear argumentEnd (us ++ [o']) :=
    hmore.clear.append fun _ => clear_symbol ho' (by decide)
  have hbegin : ∀ {x : Stage} {R : List Token}, x.rest = ts ++ (us ++ [o']) ++ R →
      Clear markedHeads x.rest := fun hrest =>
    hhead.rest h.ne_nil (hrest.trans (List.append_assoc ..))
  have hrest := (hmore.yields_rest ho').alt_right
    (a := .seq (.ref .comprehension) (Grammar.closeAs .generatorExpression ")"))
    fun x R hx _ => outcome_seq_none (outcome_comprehension_none (by
      rw [hx]
      exact (hmore.head ho').append (by simp)))
  have hyields := h.yields.seq hrest (hfollow.mono (List.subset_cons_self ..)) (by simp)
  have hmarked : ∀ x R, x.rest = ts ++ (us ++ [o']) ++ R → Clear [] R →
      outcome (.seq markedArgument argumentsRest) x = none := by
    intro x R hx _
    have hkeyword : outcome Grammar.keywordArgument x = none :=
      outcome_marked_none (R := us ++ [o'] ++ R) h.ne_nil (by rw [hx, List.append_assoc]) hnext
        ((hfollow.append (by simp)).mono (List.cons_subset_cons _ (List.nil_subset _)))
    exact outcome_seq_none (outcome_alt_none hkeyword (outcome_alt_none
      (outcome_node_none_of_clear (hbegin hx) (by simp [markedHeads]))
      (outcome_node_none_of_clear (hbegin hx) (by simp [markedHeads]))))
  have hall := (hyields.alt_right hmarked).alt_right
    (a := .seq (Grammar.optional (symbol ",")) (symbol ")"))
    fun x R hx _ => outcome_noArguments_none ((hbegin hx).mono (by simp [markedHeads]))
  exact Stands.ref ((hall.token_then ho).node (List.cons_ne_nil _ _) .argumentList)

end Rule.Stands

/-! ## Operands and expressions in brackets -/

/-- The tests for the tokens that no expression in brackets begins with. -/
def closedHeads : List Terminal :=
  [.symbol [","], .symbol [")"], .symbol ["*"], .symbol ["**"], .word ["yield"], .symbol [":="],
    .symbol ["="]]

/-- The tests for the tokens that no operand begins with. -/
def operandHeads : List Terminal :=
  .word ["not"] :: .word ["lambda"] :: .symbol ["+", "-", "~"] :: .word ["await"] :: closedHeads

/-- The tests for the marks behind a name. -/
def nameMarks : List Terminal := [.symbol [":="], .symbol ["="]]

/-- The kinds of nodes that mean something else in brackets than elsewhere. -/
def bracketKinds : List Kind := [.yieldExpression, .listSplat, .keywordArgument, .dictionarySplat]

/-- Tokens that are an operand with its attributes, calls and subscripts. -/
structure IsOperand (ts : List Token) (t : Tree) : Prop where
  chained : Chained [.kind .stringStart] ts t
  head : Clear operandHeads ts
  next : Clear nameMarks ts.tail
  kind : t.kind ∉ bracketKinds

/-- Tokens that are an expression. -/
structure IsExpression (ts : List Token) (t : Tree) : Prop where
  stands : expression.Stands continuations ts t
  head : Clear closedHeads ts
  next : Clear [.symbol ["="]] ts.tail
  kind : t.kind ∉ bracketKinds

/-- Tokens that are an argument, first or behind a comma. -/
structure IsArgument (ts : List Token) (t : Tree) : Prop where
  first : ∀ {o o' : Token} {us : List Token} {cs : List Tree},
    (Terminal.symbol ["("]).accepts o = true → MoreArguments us cs →
    (Terminal.symbol [")"]).accepts o' = true →
    (Rule.ref .arguments).Stands [] (o :: (ts ++ (us ++ [o'])))
      (.node .argumentList none (spanOf (o :: (ts ++ (us ++ [o'])))) (t :: cs))
  later : argument.Stands argumentEnd ts t

theorem IsOperand.isExpression (h : IsOperand ts t) : IsExpression ts t where
  stands := (h.chained.stands (G := Phrase.postfixed.goesOn) (by
    simp [Phrase.goesOn, Phrase.rank, continuations]) (by
      simp [Phrase.goesOn, Phrase.rank, continuations])).expression_of_postfixed
    ⟨h.head.mono (by simp [operandHeads]), h.next.mono (by simp [nameMarks])⟩
    (h.head.mono (by simp [operandHeads]))
  head := h.head.mono (by simp [operandHeads, closedHeads])
  next := h.next.mono (by simp [nameMarks])
  kind := h.kind

/-- What follows an operand that has been chained to it. -/
theorem IsOperand.append (h : IsOperand ts t) (hu : Chained [] (ts ++ us) u)
    (hnext : Clear nameMarks us) (hkind : u.kind ∉ bracketKinds) :
    IsOperand (ts ++ us) u where
  chained := ⟨hu.ne_nil, hu.span, fun x R hrest _ => hu.reads x R hrest (by simp [Clear])⟩
  head := h.head.append fun hnil => absurd hnil h.chained.ne_nil
  next := by
    obtain ⟨o, ts, rfl⟩ := List.exists_cons_of_ne_nil h.chained.ne_nil
    exact h.next.append fun _ => hnext
  kind := hkind

theorem IsExpression.isArgument (h : IsExpression ts t) : IsArgument ts t where
  first ho hmore ho' := h.stands.arguments_positional ho
    (h.head.mono (by simp [markedHeads, closedHeads])) h.next hmore ho'
  later := h.stands.argument ⟨h.head.mono (by simp [closedHeads]), h.next⟩

/-! ## Strings -/

theorem outcome_leaf_none {x : Stage} {k : Kind} {test : Terminal}
    (h : ∀ first ∈ x.rest.head?, test.accepts first = false) :
    outcome (Grammar.leaf k test) x = none :=
  outcome_node_none (outcome_token_none h)

/-- A string without interpolations stands by itself in front of anything but another string. -/
theorem Rule.Stands.string (ho : o.kind = .stringStart) (ho' : o'.kind = .stringEnd) :
    (Rule.ref .atom).Stands [.kind .stringStart] [o, o'] (.node .string none (spanOf [o, o']) []) := by
  have hstart : (Terminal.kind .stringStart).accepts o = true := by simp [Terminal.accepts, ho]
  have hend : (Terminal.kind .stringEnd).accepts o' = true := by simp [Terminal.accepts, ho']
  have hmany : (Rule.many (.ref .interpolation)).Yields [.kind .interpolationStart] [] none [] :=
    yields_many_nil fun x hclear => by
      rw [outcome_ref]
      exact outcome_node_none_of_clear hclear (List.mem_cons_self ..)
  have hclear : Clear [.kind .interpolationStart] [o'] :=
    clear_cons.2 (by simp [Terminal.accepts, ho'])
  have hone := ((hmany.seq (yields_token hend) hclear (by simp)).token_then hstart).node
    (List.cons_ne_nil _ _) .string
  have hstrings : (Rule.ref .strings).Stands [.kind .stringStart] [o, o'] _ :=
    Stands.ref (hone.seq_nothing (List.nil_subset _) (yields_optional fun x hclear =>
      outcome_wrap_none fun built => outcome_seq_none (outcome_node_none_of_clear
        (x := x.under _ built) hclear (List.mem_cons_self ..))))
  refine Stands.ref (hstrings.alt_left.alt_right fun x R hrest _ => outcome_leaf_none ?_)
  simp [hrest, Terminal.accepts, ho]

end

end Redeploy.Syntax
