import Redeploy.Proofs.Syntax.Operands

set_option autoImplicit false

/-! # The levels of expressions

An expression is an operand of the loosest level, and each level lets an operand of the next one stand
as it is. `Phrase.goesOn` lists the tests for the tokens that can go on with a phrase. There is one lemma
for each level; attributes and calls are put together at the tightest one, and
`Stands.expression_of_postfixed` climbs from there to the loosest. -/

namespace Redeploy.Syntax

open Grammar (word symbol expression)

/-! ## What can go on with an expression -/

/-- The tests for the tokens that can go on with an expression, those that bind loosest first. -/
def continuations : List Terminal :=
  [.word ["as"], .word ["if"], .word ["or"], .word ["and"],
    .symbol ["<", "<=", "==", "!=", ">=", ">", "<>"], .word ["in"], .word ["not"], .word ["is"],
    .symbol ["|"], .symbol ["^"], .symbol ["&"], .symbol ["<<", ">>"], .symbol ["+", "-"],
    .symbol ["*", "@", "/", "%", "//"], .symbol ["**"], .symbol ["."], .symbol ["("], .symbol ["["],
    .kind .stringStart, .symbol [":="]]

/-- How many of them a phrase leaves alone. -/
def Phrase.rank : Phrase → Nat
  | .disjunction => 2
  | .conjunction => 3
  | .inversion | .comparison => 4
  | .bitOr => 8
  | .bitXor => 9
  | .bitAnd => 10
  | .shift => 11
  | .sum => 12
  | .product => 13
  | .unary | .power => 14
  | .postfixed => 15
  | .atom => 18
  | _ => 0

/-- The tests for the tokens that can go on with a phrase. -/
def Phrase.goesOn (p : Phrase) : List Terminal :=
  continuations.drop p.rank

theorem goesOn_subset {p q : Phrase} (h : p.rank ≤ q.rank) : q.goesOn ⊆ p.goesOn :=
  List.drop_subset_drop_left continuations h

/-- Tokens that begin neither a negation nor a function, nor the naming of a value. -/
structure Calm (ts : List Token) : Prop where
  head : Clear [.word ["not"], .word ["lambda"]] ts
  next : Clear [.symbol [":="]] ts.tail

/-- Tokens that begin neither with a sign nor with the word for waiting. -/
def Unsigned (ts : List Token) : Prop :=
  Clear [.symbol ["+", "-", "~"], .word ["await"]] ts

/-! ## Known tokens -/

namespace Terminal

theorem accepts_congr {o o' : Token} (hkind : o.kind = o'.kind) (htext : o.text = o'.text)
    (t : Terminal) : t.accepts o = t.accepts o' := by
  cases t <;> simp only [accepts, hkind, htext]

theorem accepts_of_symbol {s : String} {o : Token} (h : (symbol [s]).accepts o = true) (t : Terminal) :
    t.accepts o = t.accepts ⟨.symbol, s.toList, default⟩ := by
  simp only [accepts, Bool.and_eq_true, beq_iff_eq, List.any_cons, List.any_nil, Bool.or_false] at h
  exact accepts_congr h.1 h.2 t

theorem eq_of_accepts_symbol {s : String} {o : Token} (h : (symbol [s]).accepts o = true) :
    ∃ span, o = ⟨.symbol, s.toList, span⟩ := by
  simp only [accepts, Bool.and_eq_true, beq_iff_eq, List.any_cons, List.any_nil, Bool.or_false] at h
  obtain ⟨kind, text, span⟩ := o
  obtain ⟨rfl, rfl⟩ := h
  exact ⟨span, rfl⟩

theorem accepts_of_word {w : String} {o : Token} (h : (word [w]).accepts o = true) (t : Terminal) :
    t.accepts o = t.accepts ⟨.word, w.toList, default⟩ := by
  simp only [accepts, Bool.and_eq_true, beq_iff_eq, List.any_cons, List.any_nil, Bool.or_false] at h
  exact accepts_congr h.1 h.2 t

end Terminal

section

variable {F G : List Terminal} {ts us vs : List Token} {t u v : Tree} {o : Token}

/-- Which tests a known symbol at the head of some tokens fails can be worked out. -/
theorem clear_of_symbol {s : String} (hts : ∀ o ∈ ts.head?, (Terminal.symbol [s]).accepts o = true)
    (hF : ∀ test ∈ F, test.accepts ⟨.symbol, s.toList, default⟩ = false) : Clear F ts :=
  fun o ho test htest => (Terminal.accepts_of_symbol (hts o ho) test).trans (hF test htest)

theorem clear_symbol {s : String} (ho : (Terminal.symbol [s]).accepts o = true)
    (hF : ∀ test ∈ F, test.accepts ⟨.symbol, s.toList, default⟩ = false) : Clear F (o :: ts) :=
  clear_of_symbol (by simpa using ho) hF

/-! ## Operators that group to the left -/

/-- A level whose operators group to the left. -/
structure Grouped (p q : Phrase) (k : Kind) (op : Terminal) : Prop where
  rule : Grammar.rule p = Grammar.leftGrouped k q op
  goesOn : op ∈ p.goesOn

theorem grouped_disjunction : Grouped .disjunction .conjunction .booleanOperator (.word ["or"]) :=
  ⟨rfl, List.mem_cons_self ..⟩

theorem grouped_conjunction : Grouped .conjunction .inversion .booleanOperator (.word ["and"]) :=
  ⟨rfl, List.mem_cons_self ..⟩

theorem grouped_bitOr : Grouped .bitOr .bitXor .binaryOperator (.symbol ["|"]) :=
  ⟨rfl, List.mem_cons_self ..⟩

theorem grouped_bitXor : Grouped .bitXor .bitAnd .binaryOperator (.symbol ["^"]) :=
  ⟨rfl, List.mem_cons_self ..⟩

theorem grouped_bitAnd : Grouped .bitAnd .shift .binaryOperator (.symbol ["&"]) :=
  ⟨rfl, List.mem_cons_self ..⟩

theorem grouped_shift : Grouped .shift .sum .binaryOperator (.symbol ["<<", ">>"]) :=
  ⟨rfl, List.mem_cons_self ..⟩

theorem grouped_sum : Grouped .sum .product .binaryOperator (.symbol ["+", "-"]) :=
  ⟨rfl, List.mem_cons_self ..⟩

theorem grouped_product :
    Grouped .product .unary .binaryOperator (.symbol ["*", "@", "/", "%", "//"]) :=
  ⟨rfl, List.mem_cons_self ..⟩

namespace Grouped

variable {p q : Phrase} {k : Kind} {op : Terminal}

theorem operand (hp : Grouped p q k op) (h : (Rule.ref q).Stands F ts t) (hsub : F ⊆ G)
    (hgoes : p.goesOn ⊆ G) : (Rule.ref p).Stands G ts t := by
  have hrule : (Grammar.leftGrouped k q op).Stands G ts t :=
    h.leads.stands hsub fun x hclear => outcome_wrap_none_of_clear hclear (hgoes hp.goesOn)
  exact Rule.Stands.ref (hp.rule ▸ hrule)

end Grouped

/-- A token that nothing is asked of the next one for. -/
theorem Rule.Yields.token_then {test : Terminal} {a : Rule Phrase} {become : Option Kind}
    {cs : List Tree} (ha : a.Yields G us become cs) (hacc : test.accepts o = true) :
    (Rule.seq (.token test) a).Yields G (o :: us) become cs := by
  have h := (Rule.yields_token hacc).seq ha (by simp [Clear]) fun _ => List.nil_subset G
  rwa [Option.or_none] at h

/-! ## Conditions and targets -/

namespace Rule.Stands

theorem conditional (h : (Rule.ref .disjunction).Stands F ts t) (hsub : F ⊆ G)
    (hif : .word ["if"] ∈ G) : Grammar.conditional.Stands G ts t :=
  h.seq_nothing hsub (yields_optional fun _ hclear => outcome_wrap_none_of_clear hclear hif)

theorem expression_of_conditional (h : Grammar.conditional.Stands F ts t) (hsub : F ⊆ G)
    (has : .word ["as"] ∈ G) : (Rule.ref .expression).Stands G ts t :=
  Stands.ref (p := .expression)
    (h.leads.stands hsub fun _ hclear => outcome_wrap_none_of_clear hclear has)

end Rule.Stands

/-! ## Negations, functions and named values -/

/-- Nothing is read that begins with a name and a mark, where the token behind the first one is not
    the mark. -/
theorem outcome_marked_none {x : Stage} {R : List Token} {k : Kind} {role : Role} {mark : String}
    {a : Rule Phrase} (hne : ts ≠ []) (hrest : x.rest = ts ++ R)
    (hnext : Clear [.symbol [mark]] ts.tail) (hclear : Clear [.symbol [mark]] R) :
    outcome (.node k (.seq (.role role Grammar.operandName) (.seq (symbol mark) a))) x = none := by
  obtain ⟨o, ts, rfl⟩ := List.exists_cons_of_ne_nil hne
  refine outcome_node_none ?_
  rw [outcome_seq]
  cases hacc : (Terminal.wordExcept Grammar.reservedOperands).accepts o with
  | true =>
    have hyields := (Rule.stands_leaf hacc .identifier).yields.role role
    rw [Grammar.operandName, hyields (x.under k []) (ts ++ R) hrest (by simp [Clear]),
      Option.bind_some]
    exact outcome_seq_none (outcome_token_none_of_clear (hnext.append fun _ => hclear)
      (List.mem_cons_self ..))
  | false =>
    have hleaf : outcome Grammar.operandName (x.under k []) = none := by
      refine outcome_node_none (outcome_token_none ?_)
      show ∀ first ∈ x.rest.head?, _
      simp [hrest, hacc]
    rw [outcome_role_none hleaf]
    rfl

namespace Rule.Stands

/-- Where neither a negation nor a function begins and no value is named, a comparison stands by
    itself. -/
theorem inversion (h : (Rule.ref .comparison).Stands F ts t) (hcalm : Calm ts)
    (hsub : .symbol [":="] ∈ F) : (Rule.ref .inversion).Stands F ts t := by
  have hhead : ∀ {x : Stage} {R : List Token}, x.rest = ts ++ R →
      Clear [.word ["not"], .word ["lambda"]] x.rest := hcalm.head.rest h.ne_nil
  refine Stands.ref (((h.alt_right ?_).alt_right ?_).alt_right ?_)
  · exact fun x R hrest hclear => outcome_marked_none h.ne_nil hrest hcalm.next
      (hclear.mono (by simpa using hsub))
  · exact fun x R hrest _ => outcome_node_none_of_clear (hhead hrest) (by simp)
  · exact fun x R hrest _ => outcome_node_none_of_clear (hhead hrest) (by simp)

end Rule.Stands

/-! ## Comparisons -/

/-- One operator that compares, and what it compares with. -/
abbrev comparand : Rule Phrase := .seq Grammar.comparisonOperator (.ref .bitOr)

/-- The tests for the tokens that begin an operator that compares. -/
def comparisons : List Terminal :=
  [.symbol ["<", "<=", "==", "!=", ">=", ">", "<>"], .word ["in"], .word ["not"], .word ["is"]]

theorem outcome_comparand_none {x : Stage} (hclear : Clear comparisons x.rest) :
    outcome comparand x = none := by
  have htoken : ∀ test ∈ comparisons, outcome (.token test) x = none := fun test htest =>
    outcome_token_none_of_clear hclear htest
  exact outcome_seq_none (outcome_alt_none (htoken _ (by simp [comparisons]))
    (outcome_alt_none (htoken _ (by simp [comparisons]))
      (outcome_alt_none (outcome_seq_none (htoken _ (by simp [comparisons])))
        (outcome_seq_none (htoken _ (by simp [comparisons]))))))

namespace Rule.Stands

theorem comparison (h : (Rule.ref .bitOr).Stands F ts t) (hsub : F ⊆ G) (hcomp : comparisons ⊆ G) :
    (Rule.ref .comparison).Stands G ts t := by
  refine Stands.ref (h.seq_nothing hsub (yields_optional fun x hclear => ?_))
  exact outcome_wrap_none fun built =>
    outcome_seq_none (outcome_comparand_none (x := x.under _ built) (hclear.mono hcomp))

/-! ## Signs, waiting and powers -/

/-- Where no sign and no waiting begins, a power stands by itself. -/
theorem unary (h : (Rule.ref .power).Stands F ts t) (hunsigned : Unsigned ts) :
    (Rule.ref .unary).Stands F ts t := by
  have hhead : ∀ {x : Stage} {R : List Token}, x.rest = ts ++ R →
      Clear [.symbol ["+", "-", "~"], .word ["await"]] x.rest := Clear.rest hunsigned h.ne_nil
  refine Stands.ref ((h.alt_right ?_).alt_right ?_)
  · exact fun x R hrest _ => outcome_node_none_of_clear (hhead hrest) (by simp)
  · exact fun x R hrest _ => outcome_node_none_of_clear (hhead hrest) (by simp)

theorem power (h : (Rule.ref .postfixed).Stands F ts t) (hsub : F ⊆ G)
    (hpower : .symbol ["**"] ∈ G) : (Rule.ref .power).Stands G ts t :=
  Stands.ref (h.seq_nothing hsub
    (yields_optional fun _ hclear => outcome_wrap_none_of_clear hclear hpower))

end Rule.Stands

/-! ## Attributes and calls -/

/-- An attribute, the arguments of a call or a subscript. -/
def trailer : Rule Phrase :=
  Grammar.alts [.wrap .attributeAccess (some .object)
      (.seq (symbol ".") (.role .attributeName Grammar.anyName)),
    .wrap .call (some .function) (.role .arguments (.ref .arguments)),
    .wrap .subscript (some .value)
      (Grammar.within "[" (Grammar.commaList Grammar.subscriptItem) "]")]

/-- An operand with its attributes, calls and subscripts, up to some token. -/
abbrev Chained (F : List Terminal) (ts : List Token) (t : Tree) : Prop :=
  Rule.Leads (.ref .atom) trailer F ts t

theorem outcome_arguments_none {x : Stage} (hclear : Clear F x.rest) (hopen : .symbol ["("] ∈ F) :
    outcome (.ref .arguments) x = none := by
  rw [outcome_ref]
  exact outcome_node_none_of_clear hclear hopen

theorem outcome_trailer_none {x : Stage} (hclear : Clear F x.rest)
    (hsub : [.symbol ["."], .symbol ["("], .symbol ["["]] ⊆ F) : outcome trailer x = none :=
  outcome_alt_none (outcome_wrap_none_of_clear hclear (hsub (by simp)))
    (outcome_alt_none
      (outcome_wrap_none fun _ =>
        outcome_role_none (outcome_arguments_none (F := F) hclear (hsub (by simp))))
      (outcome_wrap_none_of_clear hclear (hsub (by simp))))

namespace Chained

theorem stands (h : Chained F ts t) (hsub : F ⊆ G)
    (htrailer : [.symbol ["."], .symbol ["("], .symbol ["["]] ⊆ G) :
    (Rule.ref .postfixed).Stands G ts t :=
  Rule.Stands.ref (p := .postfixed)
    (Rule.Leads.stands h hsub fun _ hclear => outcome_trailer_none hclear htrailer)

/-- An attribute more. -/
theorem member {o' : Token} (h : Chained F ts t) (ho : (Terminal.symbol ["."]).accepts o = true)
    (hclear : Clear F [o]) (ho' : o'.kind = .word) :
    Chained [] (ts ++ [o, o'])
      (.node .attributeAccess none (t.span.upTo o'.span)
        [t.withRole .object, .node .identifier (some .attributeName) o'.span []]) := by
  have hname : (Terminal.kind .word).accepts o' = true := by simp [Terminal.accepts, ho']
  exact Rule.Leads.carries h hclear (((((Rule.stands_leaf hname .identifier).yields.role
    .attributeName).token_then ho).wrap (List.cons_ne_nil o [o']) .attributeAccess (some .object)
      t).alt_left)

/-- The arguments of a call more. -/
theorem call (h : Chained F ts t) (hu : (Rule.ref .arguments).Stands [] us u)
    (ho : ∀ o ∈ us.head?, (Terminal.symbol ["("]).accepts o = true)
    (hclear : Clear F us) :
    Chained [] (ts ++ us)
      (.node .call none (t.span.upTo (us.getLastD default).span)
        [t.withRole .function, u.withRole .arguments]) := by
  refine Rule.Leads.carries h hclear (((hu.yields.role .arguments).wrap hu.ne_nil .call
    (some .function) t).alt_left.alt_right ?_)
  intro x R hrest
  have hfirst : Clear [.symbol ["."]] us := clear_of_symbol ho (by decide)
  exact outcome_wrap_none_of_clear (hfirst.rest hu.ne_nil hrest) (List.mem_cons_self ..)

end Chained

/-! ## From operands to expressions -/

namespace Rule.Stands

/-- A name stands by itself. -/
theorem name (ho : (Terminal.wordExcept Grammar.reservedOperands).accepts o = true) :
    (Rule.ref .atom).Stands [] [o] (.node .identifier none o.span []) :=
  Stands.ref (stands_leaf ho .identifier).alt_left

/-- An operand of the tightest operators stands by itself as an operand of all others. -/
theorem comparison_of_unary (h : (Rule.ref .unary).Stands Phrase.unary.goesOn ts t) :
    (Rule.ref .comparison).Stands Phrase.comparison.goesOn ts t := by
  have hproduct : (Rule.ref .product).Stands Phrase.product.goesOn ts t :=
    grouped_product.operand h (goesOn_subset (by decide)) (List.Subset.refl _)
  have hsum : (Rule.ref .sum).Stands Phrase.sum.goesOn ts t :=
    grouped_sum.operand hproduct (goesOn_subset (by decide)) (List.Subset.refl _)
  have hshift : (Rule.ref .shift).Stands Phrase.shift.goesOn ts t :=
    grouped_shift.operand hsum (goesOn_subset (by decide)) (List.Subset.refl _)
  have hbitAnd : (Rule.ref .bitAnd).Stands Phrase.bitAnd.goesOn ts t :=
    grouped_bitAnd.operand hshift (goesOn_subset (by decide)) (List.Subset.refl _)
  have hbitXor : (Rule.ref .bitXor).Stands Phrase.bitXor.goesOn ts t :=
    grouped_bitXor.operand hbitAnd (goesOn_subset (by decide)) (List.Subset.refl _)
  have hbitOr : (Rule.ref .bitOr).Stands Phrase.bitOr.goesOn ts t :=
    grouped_bitOr.operand hbitXor (goesOn_subset (by decide)) (List.Subset.refl _)
  exact hbitOr.comparison (goesOn_subset (by decide)) (by
    simp [comparisons, Phrase.goesOn, Phrase.rank, continuations])

/-- An operand of logical operators stands by itself as an expression. -/
theorem expression_of_inversion (h : (Rule.ref .inversion).Stands F ts t) (hsub : F ⊆ continuations) :
    (Rule.ref .expression).Stands continuations ts t := by
  have hall : ∀ p : Phrase, p.goesOn ⊆ continuations := fun p => List.drop_subset ..
  have hconjunction := grouped_conjunction.operand h hsub (hall _)
  have hdisjunction := grouped_disjunction.operand hconjunction (List.Subset.refl _) (hall _)
  have hconditional := hdisjunction.conditional (List.Subset.refl _) (by simp [continuations])
  exact hconditional.expression_of_conditional (List.Subset.refl _) (by simp [continuations])

/-- An operand with attributes, calls and subscripts stands by itself as an expression. -/
theorem expression_of_postfixed (h : (Rule.ref .postfixed).Stands Phrase.postfixed.goesOn ts t)
    (hcalm : Calm ts) (hunsigned : Unsigned ts) :
    (Rule.ref .expression).Stands continuations ts t := by
  have hpower : (Rule.ref .power).Stands Phrase.power.goesOn ts t :=
    h.power (goesOn_subset (by decide)) (by simp [Phrase.goesOn, Phrase.rank, continuations])
  have hunary : (Rule.ref .unary).Stands Phrase.unary.goesOn ts t := hpower.unary hunsigned
  have hinversion := hunary.comparison_of_unary.inversion hcalm (by
    simp [Phrase.goesOn, Phrase.rank, continuations])
  exact hinversion.expression_of_inversion (List.drop_subset ..)

end Rule.Stands

end

end Redeploy.Syntax
