import Redeploy.Expr.Render
import Redeploy.Proofs.Fallible
import Redeploy.Proofs.Script.Quoting
import Redeploy.Proofs.Syntax.Brackets
import Redeploy.Proofs.Syntax.Cutting
import Redeploy.Script.Lower
import Redeploy.Syntax.Parse

set_option autoImplicit false

/-! # Texts that spell expressions

`Spelled` says of a text that wherever it stands outside strings, it is cut by itself, its tokens stand
by themselves as an operand, an expression or the like, and the node that they make up means what the
text is to mean. Names and literals spell themselves; attributes, arguments and calls spell what they
are put together from. An attribute needs an operand in front of it, and a whole number, which is
written without parentheses as well, is none (`unreadable_attribute_of_number`). -/

namespace Redeploy.Expr

mutual

/-- The expression that is read where an expression is written: without places, and every literal with
    the text that it is written as. -/
def asRead : Expr → Expr
  | name id _ => name id none
  | member value attr _ => member value.asRead attr none
  | call func args keywords _ => call func.asRead (asReadArgs args) (asReadKeywords keywords) none
  | string value raw _ => string value (some (raw.getD (Literal.quote value))) none
  | verbatim text atomic _ => verbatim text atomic none

/-- Apply `asRead` to every positional argument. -/
def asReadArgs : List Expr → List Expr
  | [] => []
  | e :: es => e.asRead :: asReadArgs es

/-- Apply `asRead` to every keyword argument. -/
def asReadKeywords : List (Keyword Expr) → List (Keyword Expr)
  | [] => []
  | ⟨arg, value⟩ :: rest => ⟨arg, value.asRead⟩ :: asReadKeywords rest

end

end Redeploy.Expr

namespace Redeploy.Script

open Syntax

/-! ## Lowering up to roles -/

theorem role_withRole (t : Tree) (r : Syntax.Role) : (t.withRole r).role = some r := by
  cases t
  rfl

/-- The role of a node does not matter for the expression that it is. -/
theorem lower_withRole (source : Text) (t : Tree) (r : Syntax.Role) :
    lower source (t.withRole r) = lower source t := by
  obtain ⟨kind, role, span, children⟩ := t
  unfold Tree.withRole lower
  rfl

/-! ## Spelling -/

/-- A text spells something that a node may mean, as what some tokens are: wherever it stands outside
    strings, in front of a text that begins with one of some characters, its tokens are that, and the
    node they make up has the meaning. -/
structure Spelled (K : List Token → Tree → Prop) (ends : List Char) (w : Text)
    (M : Text → Tree → Prop) : Prop where
  head : ∃ c ∈ w.head?, isGap c = false ∧ c ≠ '='
  reads : ∃ ls, Cuts (Begins ends) w ls ∧ ls.flatMap Lexeme.text = w ∧ ∀ before after : Text, ∃ t,
    K (tokensFrom (pointAt before) ls) t ∧
    t.span = (pointAt before).span (pointAt (before ++ w)) ∧ M (before ++ w ++ after) t

/-- A node is an expression, up to places. -/
def Means (e : Expr) (source : Text) (t : Tree) : Prop :=
  (lower source t).unplaced = e.asRead

section

variable {K L : List Token → Tree → Prop} {cs ds : List Char} {w : Text} {e : Expr}
  {M : Text → Tree → Prop}

theorem Spelled.imp (h : Spelled K cs w M) (hK : ∀ ts t, K ts t → L ts t) (hsub : ds ⊆ cs) :
    Spelled L ds w M := by
  obtain ⟨ls, hcuts, htext, hall⟩ := h.reads
  refine ⟨h.head, ls, hcuts.mono fun u hu => hu.mono hsub, htext, fun before after => ?_⟩
  obtain ⟨t, ht, hspan, hmeans⟩ := hall before after
  exact ⟨t, hK _ _ ht, hspan, hmeans⟩

theorem text_of_span {t : Tree} {before after : Text}
    (h : t.span = (pointAt before).span (pointAt (before ++ w))) :
    t.text (before ++ w ++ after) = String.ofList w := by
  have hstart : t.span.startByte = before.size := by
    rw [h]
    exact byte_pointAt before
  have hend : t.span.endByte = before.size + w.size := by
    rw [h, ← Text.size_append]
    exact byte_pointAt (before ++ w)
  rw [Tree.text, hstart, hend, Text.slice_append]

/-! ## Names and attributes -/

/-- The words that are no names within an operand. -/
def operandKeywords : List String := ["await", "yield"] ++ Grammar.reservedOperands

/-- A text that is a name wherever an operand is read. -/
structure IsName (id : String) : Prop where
  identifier : IsIdentifier id.toList
  notKeyword : id ∉ operandKeywords

theorem head_of_isIdentifier (h : IsIdentifier w) : ∃ c ∈ w.head?, isGap c = false ∧ c ≠ '=' := by
  obtain ⟨⟨c, hc, hstart⟩, -⟩ := h
  refine ⟨c, hc, (notMark_of_startsIdentifier hstart).2.1, ?_⟩
  rintro rfl
  exact absurd hstart (by decide)

theorem accepts_word_ne {ws : String} {id : String} {span : Span} (h : id ≠ ws) :
    (Terminal.word [ws]).accepts ⟨.word, id.toList, span⟩ = false := by
  have htext : (id.toList == ws.toList) = false := by
    rw [beq_eq_false_iff_ne]
    exact fun heq => h (String.toList_inj.1 heq)
  simp [Terminal.accepts, htext]

theorem IsName.accepts {id : String} (h : IsName id) (span : Span) :
    (Terminal.wordExcept Grammar.reservedOperands).accepts ⟨.word, id.toList, span⟩ = true := by
  simp only [Terminal.accepts, beq_self_eq_true, Bool.true_and, Bool.not_eq_true', List.any_eq_false,
    beq_iff_eq]
  intro ws hws heq
  exact h.notKeyword (List.mem_append_right _ (String.toList_inj.1 heq ▸ hws))

theorem IsName.clear {id : String} (h : IsName id) (span : Span) :
    Clear operandHeads [⟨.word, id.toList, span⟩] := by
  have hne : ∀ ws ∈ operandKeywords, (Terminal.word [ws]).accepts ⟨.word, id.toList, span⟩ = false :=
    fun ws hws => accepts_word_ne fun heq => h.notKeyword (heq ▸ hws)
  refine clear_cons.2 fun test htest => ?_
  simp only [operandHeads, closedHeads, List.mem_cons, List.not_mem_nil, or_false] at htest
  rcases htest with rfl | rfl | rfl | rfl | rfl | rfl | rfl | rfl | rfl | rfl | rfl
  all_goals first | rfl | exact hne _ (by decide)

theorem spelled_name {id : String} (h : IsName id) (s : Option Span) :
    Spelled IsOperand nameEnds id.toList (Means (.name id s)) := by
  refine ⟨head_of_isIdentifier h.identifier, _, cuts_word h.identifier, by simp, fun before after => ?_⟩
  refine ⟨_, ⟨(Rule.Stands.name (h.accepts _)).mono (List.nil_subset _) |>.leads, h.clear _, ?_, ?_⟩,
    by rw [← afterText_pointAt]; rfl, ?_⟩
  · exact (clear_nil : Clear nameMarks [])
  · simp [Tree.kind, bracketKinds]
  · rw [Means, lower]
    simp only [Expr.unplaced, Expr.asRead]
    rw [text_of_span (by rw [← afterText_pointAt]; rfl), String.ofList_toList]

theorem lower_member (source : Text) {span : Span} {t name : Tree}
    (hname : name.role = some .attributeName) :
    lower source (.node .attributeAccess none span [t.withRole .object, name]) =
      .member (lower source t) (name.text source) (some span) := by
  have hrole : ((t.withRole .object).role == some Syntax.Role.object) = true := by
    simp [role_withRole]
  have hother : ((t.withRole .object).role == some Syntax.Role.attributeName) = false := by
    simp [role_withRole]
  simp only [lower, lowerIn, hrole, textIn, List.find?_cons, hother, hname, beq_self_eq_true, if_true,
    Option.map_some, lower_withRole]

/-- What a text that goes on with another one begins with. -/
theorem head_append {p : Char → Prop} (h : ∃ c ∈ w.head?, p c) (u : Text) : ∃ c ∈ (w ++ u).head?, p c := by
  obtain ⟨c, hc, hp⟩ := h
  exact ⟨c, by rw [List.head?_append, Option.mem_def.1 hc]; rfl, hp⟩

/-- An attribute of an operand. -/
theorem Spelled.member {attr : String} (h : Spelled IsOperand cs w (Means e)) (hpoint : '.' ∈ cs)
    (hattr : IsIdentifier attr.toList) (s : Option Span) :
    Spelled IsOperand nameEnds (w ++ '.' :: attr.toList) (Means (.member e attr s)) := by
  obtain ⟨ls, hcuts, htext, hall⟩ := h.reads
  refine ⟨head_append h.head _, _, hcuts.append (cuts_attribute hattr) fun v _ =>
    begins_cons hpoint _, by rw [List.flatMap_append, htext]; simp, fun before after => ?_⟩
  obtain ⟨t, ht, hspan, hmeans⟩ := hall before ('.' :: attr.toList ++ after)
  rw [tokensFrom_append, htext, afterText_pointAt, tokensFrom_cons, tokensFrom_cons, afterText_pointAt,
    afterText_pointAt]
  have hall : before ++ (w ++ '.' :: attr.toList) = before ++ w ++ ['.'] ++ attr.toList := by simp
  have hfirst : before ++ w ++ ('.' :: attr.toList ++ after) =
      before ++ w ++ ['.'] ++ attr.toList ++ after := by simp
  rw [Means, hfirst] at hmeans
  refine ⟨_, ht.append (ht.chained.member rfl (clear_cons.2 (by simp [Terminal.accepts])) rfl)
    (clear_cons.2 (by simp [nameMarks, Terminal.accepts])) (by simp [Tree.kind, bracketKinds]), ?_, ?_⟩
  · rw [Tree.span, hspan, hall]
    rfl
  · rw [hall, Means, lower_member _ rfl, Expr.unplaced, hmeans, text_of_span rfl, String.ofList_toList]
    rfl

/-- A whole number is no operand of an attribute, but it is written as one: the attribute of a number in
    parentheses is written as a text that cannot be read. -/
theorem unreadable_attribute_of_number : ∃ root x,
    parse "(1).real\n".toList = .ok root ∧ x ∈ root.nodes ∧ x.kind = .attributeAccess ∧
    (lower "(1).real\n".toList x).render = "1.real" ∧
    ∀ tree, parse ("(" ++ "1.real" ++ ")\n").toList ≠ .ok tree := by
  have hrun : (parse "(1).real\n".toList).map (fun root => root.nodes.any fun x =>
      x.kind == .attributeAccess && (lower "(1).real\n".toList x).render == "1.real") = .ok true := by
    decide +kernel
  have hfault : (parse ("(" ++ "1.real" ++ ")\n").toList).toOption.isNone = true := by decide +kernel
  obtain ⟨root, hparse, hany⟩ := exists_of_map_eq_ok hrun
  simp only [List.any_eq_true, Bool.and_eq_true, beq_iff_eq] at hany
  obtain ⟨x, hx, hkind, hrender⟩ := hany
  exact ⟨root, x, hparse, hx, hkind, hrender, ne_ok_of_isNone_toOption hfault⟩

/-! ## Literals -/

theorem tokensFrom_contents (q : Position) (body : Text) : tokensFrom q (contents body) = [] := by
  unfold contents
  split <;> rfl

/-- A literal spells the string that it denotes. -/
theorem spelled_string {q : Char} {raw value : String} {e : Expr} (h : IsLiteral q raw.toList)
    (hvalue : Literal.decode? raw = some value) (he : e.asRead = .string value (some raw) none)
    (hends : q ∉ cs) : Spelled IsOperand cs raw.toList (Means e) := by
  obtain ⟨hq, body, hbody, htext⟩ := h
  refine ⟨?_, _, htext ▸ cuts_literal hbody hq hends, ?_, fun before after => ?_⟩
  · rw [htext]
    exact ⟨q, rfl, by rcases hq with rfl | rfl <;> decide⟩
  · simp [flatMap_contents, htext]
  · rw [tokensFrom_cons, tokensFrom_append, tokensFrom_contents, flatMap_contents, tokensFrom_cons,
      List.nil_append, afterText_pointAt, afterText_pointAt, afterText_pointAt]
    have hall : before ++ [q] ++ body ++ [q] = before ++ raw.toList := by simp [htext]
    rw [hall]
    refine ⟨_, ⟨(Rule.Stands.string rfl rfl).leads, ?_, ?_, by simp [Tree.kind, bracketKinds]⟩, rfl, ?_⟩
    · exact clear_cons.2 (by simp [operandHeads, closedHeads, Terminal.accepts])
    · exact clear_cons.2 (by simp [nameMarks, Terminal.accepts])
    · have hwritten : (Syntax.Tree.node .string none ((pointAt before).span (pointAt (before ++ raw.toList)))
          []).text (before ++ raw.toList ++ after) = raw :=
        (text_of_span rfl).trans String.ofList_toList
      show Means _ _ (.node .string none ((pointAt before).span (pointAt (before ++ raw.toList))) [])
      rw [Means, lower, he]
      simp only [hwritten, hvalue]
      rfl

/-- A string that is written as a literal. -/
theorem spelled_quote (value : String) (s : Option Span) (hends : '"' ∉ cs) :
    Spelled IsOperand cs (Literal.quote value).toList (Means (.string value none s)) := by
  refine spelled_string (q := '"') ?_ (Literal.decode_quote value) rfl hends
  rw [Literal.quote, String.toList_ofList]
  exact isLiteral_quoteText value.toList

/-! ## Arguments -/

namespace Argument

/-- The argument without any spans. -/
def unplaced : Argument → Argument
  | positional e => positional e.unplaced
  | keyword kw => keyword ⟨kw.arg, kw.value.unplaced⟩

/-- The argument that is read where an argument is written. -/
def asRead : Argument → Argument
  | positional e => positional e.asRead
  | keyword kw => keyword ⟨kw.arg, kw.value.asRead⟩

/-- The text of an argument. -/
def render : Argument → String
  | positional e => e.render
  | keyword ⟨some name, value⟩ => name ++ "=" ++ value.render
  | keyword ⟨none, value⟩ => "**" ++ value.render

end Argument

/-- A node in the parentheses of a call is an argument, up to places. -/
def MeansArgument (a : Argument) (source : Text) (t : Tree) : Prop :=
  (lowerEach source [t]).map Argument.unplaced = [a.asRead]

theorem lowerEach_of_not_mem {source : Text} {t : Tree} (ht : t.kind ∉ bracketKinds) :
    lowerEach source [t] = [.positional (lower source t)] := by
  obtain ⟨kind, role, span, children⟩ := t
  simp only [Tree.kind, bracketKinds, List.mem_cons, not_or] at ht
  rw [lowerEach, lowerEach]
  · rfl
  · exact fun _ _ _ heq => ht.2.2.1 (congrArg Tree.kind heq)
  · exact fun _ _ _ heq => ht.2.2.2.1 (congrArg Tree.kind heq)
  · exact fun _ _ _ heq => ht.2.1 (congrArg Tree.kind heq)

/-- An expression as an argument. -/
theorem Spelled.positional (h : Spelled IsExpression cs w (Means e)) :
    Spelled IsArgument cs w (MeansArgument (.positional e)) := by
  obtain ⟨ls, hcuts, htext, hall⟩ := h.reads
  refine ⟨h.head, ls, hcuts, htext, fun before after => ?_⟩
  obtain ⟨t, ht, hspan, hmeans⟩ := hall before after
  refine ⟨t, ht.isArgument, hspan, ?_⟩
  rw [MeansArgument, lowerEach_of_not_mem ht.kind, List.map_singleton, Argument.unplaced, hmeans]
  rfl

/-- The characters that follow an expression in brackets. -/
def valueEnds : List Char := [')', ',']

theorem lowerEach_cons (source : Text) (t : Tree) (ts : List Tree) :
    lowerEach source (t :: ts) = lowerEach source [t] ++ lowerEach source ts := by
  have hnil : lowerEach source [] = [] := by rw [lowerEach]
  rw [lowerEach.eq_def, lowerEach.eq_def source [t]]
  simp only [hnil, List.append_nil]

/-- The texts of arguments behind the first one. -/
def moreText (as : List Argument) : Text :=
  as.flatMap fun a => ',' :: ' ' :: a.render.toList

/-- Arguments that are spelled by their texts. -/
def SpelledArguments (as : List Argument) : Prop :=
  ∀ a ∈ as, Spelled IsArgument valueEnds a.render.toList (MeansArgument a)

/-- Arguments behind the first one. -/
theorem exists_moreArguments {as : List Argument} (h : SpelledArguments as) :
    ∃ ls, Cuts (Begins [')']) (moreText as) ls ∧ ls.flatMap Lexeme.text = moreText as ∧
      ∀ before after : Text, ∃ ts, MoreArguments (tokensFrom (pointAt before) ls) ts ∧
        (lowerEach (before ++ moreText as ++ after) ts).map Argument.unplaced =
          as.map Argument.asRead := by
  induction as with
  | nil => exact ⟨[], fun modes u steps _ _ hsteps => ⟨steps, hsteps, rfl⟩, rfl,
      fun before after => ⟨[], .nil, rfl⟩⟩
  | cons a as ih =>
    obtain ⟨ls, hcuts, htext, hall⟩ := (h a (List.mem_cons_self ..)).reads
    obtain ⟨ms, hmore, hmoreText, hmoreAll⟩ := ih fun b hb => h b (List.mem_cons_of_mem a hb)
    refine ⟨[⟨.token .symbol, [',']⟩] ++ ([⟨.blank, [' ']⟩] ++ (ls ++ ms)), ?_, ?_, ?_⟩
    · refine cuts_comma.append (cuts_blank.append (hcuts.append hmore ?_) ?_) fun _ _ => trivial
      · intro v hv
        cases as with
        | nil => exact hv.mono (by simp [valueEnds])
        | cons b as => exact begins_cons (by simp [valueEnds]) _
      · intro v hv c hc
        obtain ⟨d, hd, hgap, -⟩ := (h a (List.mem_cons_self ..)).head
        change c ∈ (a.render.toList ++ moreText as ++ v).head? at hc
        rw [List.append_assoc, List.head?_append, Option.mem_def.1 hd] at hc
        obtain rfl : d = c := by simpa using hc
        exact hgap
    · simp only [List.flatMap_append, List.flatMap_singleton, htext, hmoreText]
      rfl
    · intro before after
      have hwhole : before ++ moreText (a :: as) =
          before ++ [','] ++ [' '] ++ a.render.toList ++ moreText as := by
        simp [moreText]
      obtain ⟨t, ht, hspan, hmeans⟩ := hall (before ++ [','] ++ [' ']) (moreText as ++ after)
      obtain ⟨ts, hts, hlower⟩ := hmoreAll (before ++ [','] ++ [' '] ++ a.render.toList) after
      rw [List.singleton_append, List.singleton_append, tokensFrom_cons, tokensFrom_blank,
        tokensFrom_append, htext, afterText_pointAt, afterText_pointAt, afterText_pointAt]
      refine ⟨t :: ts, .cons rfl ht.later hts, ?_⟩
      rw [← List.append_assoc] at hmeans
      rw [hwhole, lowerEach_cons, List.map_append, hmeans, hlower]
      rfl

/-- The text between the parentheses of a call. -/
def argumentsText : List Argument → Text
  | [] => []
  | a :: as => a.render.toList ++ moreText as

/-- All arguments of a call. -/
theorem exists_arguments {as : List Argument} (h : SpelledArguments as) :
    ∃ ls, Cuts (Begins [')']) (argumentsText as) ls ∧ ls.flatMap Lexeme.text = argumentsText as ∧
      ∀ (before after : Text) {o o' : Token}, (Terminal.symbol ["("]).accepts o = true →
        (Terminal.symbol [")"]).accepts o' = true → ∃ ts,
          (Rule.ref .arguments).Stands [] (o :: (tokensFrom (pointAt before) ls ++ [o']))
            (.node .argumentList none (spanOf (o :: (tokensFrom (pointAt before) ls ++ [o']))) ts) ∧
          (lowerEach (before ++ argumentsText as ++ after) ts).map Argument.unplaced =
            as.map Argument.asRead := by
  cases as with
  | nil => exact ⟨[], fun modes u steps _ _ hsteps => ⟨steps, hsteps, rfl⟩, rfl,
      fun before after _ _ ho ho' => ⟨[], .arguments_nil ho ho', rfl⟩⟩
  | cons a as =>
    obtain ⟨ls, hcuts, htext, hall⟩ := (h a (List.mem_cons_self ..)).reads
    obtain ⟨ms, hmore, hmoreText, hmoreAll⟩ :=
      exists_moreArguments fun b hb => h b (List.mem_cons_of_mem a hb)
    refine ⟨ls ++ ms, hcuts.append hmore fun v hv => ?_, ?_, fun before after o o' ho ho' => ?_⟩
    · cases as with
      | nil => exact hv.mono (by simp [valueEnds])
      | cons b as => exact begins_cons (by simp [valueEnds]) _
    · rw [List.flatMap_append, htext, hmoreText]
      rfl
    · obtain ⟨t, ht, hspan, hmeans⟩ := hall before (moreText as ++ after)
      obtain ⟨ts, hts, hlower⟩ := hmoreAll (before ++ a.render.toList) after
      have hwhole : before ++ argumentsText (a :: as) = before ++ a.render.toList ++ moreText as := by
        simp [argumentsText]
      rw [tokensFrom_append, htext, afterText_pointAt, List.append_assoc]
      refine ⟨t :: ts, ht.first ho hts ho', ?_⟩
      rw [← List.append_assoc] at hmeans
      rw [hwhole, lowerEach_cons, List.map_append, hmeans, hlower]
      rfl

/-- A node is the arguments of a call, up to places. -/
def MeansArguments (as : List Argument) (source : Text) (t : Tree) : Prop :=
  t.kind = .argumentList ∧
    (lowerEach source t.children).map Argument.unplaced = as.map Argument.asRead

/-- Tokens that are the arguments of a call in their parentheses. -/
structure IsArguments (ts : List Token) (t : Tree) : Prop where
  stands : (Rule.ref .arguments).Stands [] ts t
  head : ∀ o ∈ ts.head?, (Terminal.symbol ["("]).accepts o = true

theorem spanOf_enclosed (o o' : Token) (ts : List Token) :
    spanOf (o :: (ts ++ [o'])) = o.span.upTo o'.span := by
  rw [spanOf, ← List.cons_append, List.getLastD_concat]
  rfl

/-- The arguments of a call, in parentheses, in front of whatever follows. -/
theorem exists_parenthesizedArguments {as : List Argument} (h : SpelledArguments as) :
    ∃ ls, Cuts (fun _ => True) ('(' :: (argumentsText as ++ [')'])) ls ∧
      ls.flatMap Lexeme.text = '(' :: (argumentsText as ++ [')']) ∧ ∀ before after : Text, ∃ t,
        IsArguments (tokensFrom (pointAt before) ls) t ∧
        t.span = (pointAt before).span (pointAt (before ++ '(' :: (argumentsText as ++ [')']))) ∧
        MeansArguments as (before ++ '(' :: (argumentsText as ++ [')']) ++ after) t := by
  obtain ⟨ls, hcuts, htext, hall⟩ := exists_arguments h
  refine ⟨_, hcuts.parenthesized fun u => begins_cons (List.mem_cons_self ..) u, by simp [htext],
    fun before after => ?_⟩
  rw [tokensFrom_parenthesized before htext]
  have hopening : (Terminal.symbol ["("]).accepts
      ⟨.symbol, ['('], (pointAt before).span (pointAt (before ++ ['(']))⟩ = true := rfl
  have hclosing : (Terminal.symbol [")"]).accepts
      ⟨.symbol, [')'], (pointAt (before ++ ['('] ++ argumentsText as)).span
        (pointAt (before ++ ['('] ++ argumentsText as ++ [')']))⟩ = true := rfl
  obtain ⟨ts, hts, hlower⟩ := hall (before ++ ['(']) (')' :: after) hopening hclosing
  have hwhole : before ++ '(' :: (argumentsText as ++ [')']) =
      before ++ ['('] ++ argumentsText as ++ [')'] := by simp
  refine ⟨_, ⟨hts, by simp [Terminal.accepts]⟩, ?_, rfl, ?_⟩
  · rw [Tree.span, spanOf_enclosed, hwhole]
    rfl
  · rw [hwhole, List.append_assoc _ [')']]
    exact hlower

/-! ## Calls -/

theorem unplacedArgs_filterMap (as : List Argument) :
    Expr.unplacedArgs (as.filterMap Argument.positional?) =
      (as.map Argument.unplaced).filterMap Argument.positional? := by
  induction as with
  | nil => rfl
  | cons a as ih =>
    cases a with
    | positional e => exact congrArg (e.unplaced :: ·) ih
    | keyword kw => exact ih

theorem unplacedKeywords_filterMap (as : List Argument) :
    Expr.unplacedKeywords (as.filterMap Argument.keyword?) =
      (as.map Argument.unplaced).filterMap Argument.keyword? := by
  induction as with
  | nil => rfl
  | cons a as ih =>
    cases a with
    | positional e => exact ih
    | keyword kw => exact congrArg (⟨kw.arg, kw.value.unplaced⟩ :: ·) ih

theorem lower_call (source : Text) {span : Span} {t u : Tree} (hu : u.kind = .argumentList) :
    lower source (.node .call none span [t.withRole .function, u.withRole .arguments]) =
      .call (lower source t) ((lowerEach source u.children).filterMap Argument.positional?)
        ((lowerEach source u.children).filterMap Argument.keyword?) (some span) := by
  obtain ⟨kind, role, uspan, children⟩ := u
  obtain rfl : kind = .argumentList := hu
  have hrole : ((t.withRole .function).role == some Syntax.Role.function) = true := by
    simp [role_withRole]
  have harguments : lowerArguments source
      [t.withRole .function, (Syntax.Tree.node .argumentList role uspan children).withRole .arguments] =
      lowerEach source children := by
    obtain ⟨tkind, trole, tspan, tchildren⟩ := t
    rfl
  simp only [lower, lowerIn, hrole, if_true, lower_withRole, harguments]
  rfl

/-- The arguments of a call, in the order in which they are written. -/
def argumentsOf (args : List Expr) (keywords : List (Keyword Expr)) : List Argument :=
  args.map .positional ++ keywords.map .keyword

theorem asRead_argumentsOf (args : List Expr) (keywords : List (Keyword Expr)) :
    (argumentsOf args keywords).map Argument.asRead =
      (Expr.asReadArgs args).map .positional ++ (Expr.asReadKeywords keywords).map .keyword := by
  have hargs : (args.map Argument.positional).map Argument.asRead =
      (Expr.asReadArgs args).map .positional := by
    induction args with
    | nil => rfl
    | cons e es ih => exact congrArg (Argument.positional e.asRead :: ·) ih
  have hkeywords : (keywords.map Argument.keyword).map Argument.asRead =
      (Expr.asReadKeywords keywords).map .keyword := by
    induction keywords with
    | nil => rfl
    | cons kw rest ih => exact congrArg (Argument.keyword ⟨kw.arg, kw.value.asRead⟩ :: ·) ih
  rw [argumentsOf, List.map_append, hargs, hkeywords]

theorem positional?_asRead (args : List Expr) (keywords : List (Keyword Expr)) :
    ((argumentsOf args keywords).map Argument.asRead).filterMap Argument.positional? =
      Expr.asReadArgs args := by
  rw [asRead_argumentsOf]
  simp [List.filterMap_map, Function.comp_def, Argument.positional?]

theorem keyword?_asRead (args : List Expr) (keywords : List (Keyword Expr)) :
    ((argumentsOf args keywords).map Argument.asRead).filterMap Argument.keyword? =
      Expr.asReadKeywords keywords := by
  rw [asRead_argumentsOf]
  simp [List.filterMap_map, Function.comp_def, Argument.keyword?]

/-- A call of an operand, in front of whatever follows. -/
theorem Spelled.exists_call {args : List Expr} {keywords : List (Keyword Expr)}
    (h : Spelled IsOperand cs w (Means e)) (hopen : '(' ∈ cs)
    (hargs : SpelledArguments (argumentsOf args keywords)) (s : Option Span) :
    ∃ ls, Cuts (fun _ => True) (w ++ '(' :: (argumentsText (argumentsOf args keywords) ++ [')'])) ls ∧
      ls.flatMap Lexeme.text = w ++ '(' :: (argumentsText (argumentsOf args keywords) ++ [')']) ∧
      ∀ before after : Text, ∃ t, IsOperand (tokensFrom (pointAt before) ls) t ∧ t.kind = .call ∧
        t.span = (pointAt before).span (pointAt
          (before ++ (w ++ '(' :: (argumentsText (argumentsOf args keywords) ++ [')'])))) ∧
        Means (.call e args keywords s)
          (before ++ (w ++ '(' :: (argumentsText (argumentsOf args keywords) ++ [')'])) ++ after) t := by
  obtain ⟨ls, hcuts, htext, hall⟩ := h.reads
  obtain ⟨ms, hmore, hmoreText, hmoreAll⟩ := exists_parenthesizedArguments hargs
  refine ⟨_, hcuts.append hmore fun v _ => begins_cons hopen _,
    by rw [List.flatMap_append, htext, hmoreText], fun before after => ?_⟩
  obtain ⟨t, ht, hspan, hmeans⟩ :=
    hall before ('(' :: (argumentsText (argumentsOf args keywords) ++ [')']) ++ after)
  obtain ⟨u, hu, huspan, hkind, hlower⟩ := hmoreAll (before ++ w) after
  rw [tokensFrom_append, htext, afterText_pointAt]
  refine ⟨_, ht.append (ht.chained.call hu.stands hu.head (clear_of_symbol hu.head (by decide)))
    (clear_of_symbol hu.head (by decide)) (by simp [Tree.kind, bracketKinds]), rfl, ?_, ?_⟩
  · have hend := hu.stands.span.symm.trans huspan
    show t.span.upTo (spanOf _) = _
    rw [hspan, hend, List.append_assoc]
    rfl
  · rw [← List.append_assoc] at hmeans
    rw [Means] at hmeans
    rw [← List.append_assoc, Means, lower_call _ hkind, Expr.unplaced, hmeans, unplacedArgs_filterMap,
      unplacedKeywords_filterMap, hlower, positional?_asRead, keyword?_asRead]
    rfl

end

end Redeploy.Script
