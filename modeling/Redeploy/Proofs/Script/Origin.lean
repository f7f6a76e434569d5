import Redeploy.Proofs.Syntax.Nodes
import Redeploy.Script.Lower

set_option autoImplicit false

/-! # Where the literals of an expression come from

What is lowered from a node is lowered from the nodes below it, one by one, so every string literal in
it is a node of the script (`isLiteralIn_of_lower`), and so is every value that a call has for a name
(`exists_of_mem_keywords`). No literal in it is new (`newStrings_lower`): a literal that is not written
in a script has been made by a migration. -/

namespace Redeploy

namespace Expr

mutual

/-- The strings of the literals in an expression that are not written in a script, in order. -/
def newStrings : Expr → List String
  | name _ _ => []
  | member value _ _ => value.newStrings
  | call func args keywords _ => func.newStrings ++ (newStringsArgs args ++ newStringsKeywords keywords)
  | string value raw _ =>
    match raw with
    | some _ => []
    | none => [value]
  | verbatim _ _ _ => []

/-- The new strings of positional arguments. -/
def newStringsArgs : List Expr → List String
  | [] => []
  | e :: es => e.newStrings ++ newStringsArgs es

/-- The new strings of keyword arguments. -/
def newStringsKeywords : List (Keyword Expr) → List String
  | [] => []
  | ⟨_, value⟩ :: rest => value.newStrings ++ newStringsKeywords rest

end

theorem mem_newStringsArgs {value : String} {args : List Expr} :
    value ∈ newStringsArgs args ↔ ∃ e ∈ args, value ∈ e.newStrings := by
  induction args with
  | nil => simp [newStringsArgs]
  | cons e es ih => simp [newStringsArgs, ih]

theorem mem_newStringsKeywords {value : String} {keywords : List (Keyword Expr)} :
    value ∈ newStringsKeywords keywords ↔ ∃ kw ∈ keywords, value ∈ kw.value.newStrings := by
  induction keywords with
  | nil => simp [newStringsKeywords]
  | cons kw rest ih => simp [newStringsKeywords, ih]

theorem mem_newStrings_call {value : String} {func : Expr} {args : List Expr}
    {keywords : List (Keyword Expr)} {span : Option Span} :
    value ∈ (call func args keywords span).newStrings ↔ value ∈ func.newStrings ∨
      (∃ e ∈ args, value ∈ e.newStrings) ∨ ∃ kw ∈ keywords, value ∈ kw.value.newStrings := by
  rw [newStrings, List.mem_append, List.mem_append, mem_newStringsArgs, mem_newStringsKeywords]

theorem newStrings_call_eq_nil_iff {func : Expr} {args : List Expr} {keywords : List (Keyword Expr)}
    {span : Option Span} : (call func args keywords span).newStrings = [] ↔ func.newStrings = [] ∧
      (∀ e ∈ args, e.newStrings = []) ∧ ∀ kw ∈ keywords, kw.value.newStrings = [] := by
  simp only [List.eq_nil_iff_forall_not_mem, mem_newStrings_call]
  constructor
  · intro h
    exact ⟨fun v hv => h v (.inl hv), fun e he v hv => h v (.inr (.inl ⟨e, he, hv⟩)),
      fun kw hkw v hv => h v (.inr (.inr ⟨kw, hkw, hv⟩))⟩
  · rintro ⟨hfunc, hargs, hkeywords⟩ v (hv | ⟨e, he, hv⟩ | ⟨kw, hkw, hv⟩)
    · exact hfunc v hv
    · exact hargs e he v hv
    · exact hkeywords kw hkw v hv

end Expr

namespace Script

open Syntax (Tree)

/-- An expression is a string literal that stands at or below a node, and is read as a string. -/
def IsLiteralIn (source : Text) (t : Tree) (value : String) (e : Expr) : Prop :=
  ∃ x ∈ t.nodes, x.kind = .string ∧ Literal.decode? (x.text source) = some value ∧
    e = .string value (some (x.text source)) (some x.span)

/-- The expression that an argument has. -/
def Argument.value : Argument → Expr
  | positional e => e
  | keyword kw => kw.value

variable {source : Text} {t : Tree} {ts : List Tree} {a : Argument} {e : Expr}

/-! ## Arguments -/

theorem exists_of_lowerIn {r : Syntax.Role} (h : lowerIn source r ts = some e) :
    ∃ c ∈ ts, e = lower source c := by
  induction ts with
  | nil => simp [lowerIn] at h
  | cons c cs ih =>
    rw [lowerIn] at h
    split at h
    · exact ⟨c, List.mem_cons_self .., (Option.some.inj h).symm⟩
    · obtain ⟨d, hd, heq⟩ := ih h
      exact ⟨d, List.mem_cons_of_mem c hd, heq⟩

theorem mem_filterMap_positional? {as : List Argument} :
    e ∈ as.filterMap Argument.positional? ↔ .positional e ∈ as := by
  rw [List.mem_filterMap]
  constructor
  · rintro ⟨a, ha, heq⟩
    cases a with
    | positional e' => rwa [← Option.some.inj heq]
    | keyword kw => simp [Argument.positional?] at heq
  · intro he
    exact ⟨_, he, rfl⟩

theorem mem_filterMap_keyword? {as : List Argument} {kw : Keyword Expr} :
    kw ∈ as.filterMap Argument.keyword? ↔ .keyword kw ∈ as := by
  rw [List.mem_filterMap]
  constructor
  · rintro ⟨a, ha, heq⟩
    cases a with
    | positional e' => simp [Argument.keyword?] at heq
    | keyword kw' => rwa [← Option.some.inj heq]
  · intro hkw
    exact ⟨_, hkw, rfl⟩

/-- The expression of an argument is lowered from a node, or is kept as it is written; one that has a
    name is lowered. -/
def HasOrigin (source : Text) (ts : List Tree) (a : Argument) : Prop :=
  (∃ x ∈ Tree.nodesAll ts, a.value = lower source x) ∨
    (∃ text atomic span, a.value = .verbatim text atomic span) ∧
      ∀ kw, a = .keyword kw → kw.arg = none

theorem HasOrigin.mono {us : List Tree} (h : HasOrigin source ts a)
    (hsub : ∀ x ∈ Tree.nodesAll ts, x ∈ Tree.nodesAll us) : HasOrigin source us a :=
  h.imp (fun ⟨x, hx, heq⟩ => ⟨x, hsub x hx, heq⟩) id

theorem mem_nodesAll_of_mem_children {k : Syntax.Kind} {r : Option Syntax.Role} {s : Span}
    {cs : List Tree} {c : Tree} (hc : c ∈ cs) (ts : List Tree) :
    c ∈ Tree.nodesAll (.node k r s cs :: ts) :=
  Tree.mem_nodesAll.2 ⟨_, List.mem_cons_self .., Tree.mem_nodes.2 (.inr ⟨c, hc, c.self_mem_nodes⟩)⟩

theorem hasOrigin_of_mem_lowerEach (ha : a ∈ lowerEach source ts) : HasOrigin source ts a := by
  induction ts with
  | nil => simp [lowerEach] at ha
  | cons c cs ih =>
    unfold lowerEach at ha
    rcases List.mem_append.1 ha with ha | ha
    · split at ha
      · split at ha
        · next value hvalue =>
          obtain rfl := List.mem_singleton.1 ha
          obtain ⟨d, hd, heq⟩ := exists_of_lowerIn hvalue
          exact .inl ⟨d, mem_nodesAll_of_mem_children hd _, heq⟩
        · simp at ha
      · split at ha
        · obtain rfl := List.mem_singleton.1 ha
          exact .inl ⟨_, mem_nodesAll_of_mem_children (List.mem_cons_self ..) _, rfl⟩
        · obtain rfl := List.mem_singleton.1 ha
          refine .inr ⟨⟨_, _, _, rfl⟩, ?_⟩
          rintro kw heq
          obtain rfl := Argument.keyword.inj heq
          rfl
      · obtain rfl := List.mem_singleton.1 ha
        exact .inr ⟨⟨_, _, _, rfl⟩, by simp⟩
      · obtain rfl := List.mem_singleton.1 ha
        exact .inl ⟨c, List.mem_append_left _ c.self_mem_nodes, rfl⟩
    · exact (ih ha).mono fun x hx => List.mem_append_right _ hx

theorem hasOrigin_of_mem_lowerArguments (ha : a ∈ lowerArguments source ts) : HasOrigin source ts a := by
  induction ts with
  | nil => simp [lowerArguments] at ha
  | cons c cs ih =>
    obtain ⟨kind, role, span, children⟩ := c
    rw [lowerArguments] at ha
    split at ha
    · split at ha
      · refine (hasOrigin_of_mem_lowerEach ha).mono fun x hx => ?_
        exact List.mem_append_left _ (List.mem_cons_of_mem _ hx)
      · obtain rfl := List.mem_singleton.1 ha
        exact .inr ⟨⟨_, _, _, rfl⟩, by simp⟩
    · exact (ih ha).mono fun x hx => List.mem_append_right _ hx

/-! ## Nodes -/

/-- Parentheses are left away, so what a node is lowered to is what a node in them is lowered to. -/
theorem exists_unparenthesized (source : Text) (t : Tree) :
    ∃ x ∈ t.nodes, lower source t = lower source x ∧
      (x.kind = .parenthesizedExpression → lower source x = asWritten source x) := by
  induction t using Tree.inductionOn with
  | node k r s cs ih =>
    by_cases hparentheses : k = .parenthesizedExpression ∧
        ∃ inner, cs = [inner] ∧ lower source (.node k r s cs) = lower source inner
    · obtain ⟨-, inner, rfl, hlower⟩ := hparentheses
      obtain ⟨x, hx, heq, hwritten⟩ := ih inner (List.mem_singleton_self _)
      exact ⟨x, Tree.mem_nodes.2 (.inr ⟨inner, List.mem_singleton_self _, hx⟩), hlower.trans heq, hwritten⟩
    · refine ⟨_, Tree.self_mem_nodes _, rfl, ?_⟩
      rintro (rfl : k = .parenthesizedExpression)
      unfold lower
      simp only
      split
      · next inner =>
        split
        · rfl
        · next hkind =>
          refine absurd ⟨rfl, inner, rfl, ?_⟩ hparentheses
          conv => lhs; unfold lower
          simp only [if_neg hkind]
      · rfl

/-- A string literal that is lowered from a node stands there. -/
theorem isLiteralIn_of_lower {value : String} {raw : Option String} {span : Option Span}
    (h : lower source t = .string value raw span) :
    IsLiteralIn source t value (.string value raw span) := by
  obtain ⟨⟨k, r, s, cs⟩, hx, heq, hwritten⟩ := exists_unparenthesized source t
  rw [heq] at h
  refine ⟨_, hx, ?_⟩
  by_cases hkind : k = .parenthesizedExpression
  · rw [hwritten hkind] at h
    simp [asWritten] at h
  unfold lower at h
  split at h
  · simp at h
  · split at h <;> simp [asWritten] at h
  · split at h <;> simp [asWritten] at h
  · simp only at h
    split at h
    · next hread =>
      obtain ⟨rfl, rfl, rfl⟩ := Expr.string.inj h
      exact ⟨rfl, hread, rfl⟩
    · simp [asWritten] at h
  · exact absurd rfl hkind
  · simp [asWritten] at h

/-- The arguments of a call that is lowered from a node stand there. -/
theorem exists_of_lower_eq_call {func : Expr} {args : List Expr} {keywords : List (Keyword Expr)}
    {span : Option Span} (h : lower source t = .call func args keywords span) :
    ∃ x ∈ t.nodes, (∀ e ∈ args, .positional e ∈ lowerArguments source x.children) ∧
      ∀ kw ∈ keywords, .keyword kw ∈ lowerArguments source x.children := by
  obtain ⟨⟨k, r, s, cs⟩, hx, heq, hwritten⟩ := exists_unparenthesized source t
  rw [heq] at h
  refine ⟨_, hx, ?_⟩
  by_cases hkind : k = .parenthesizedExpression
  · rw [hwritten hkind] at h
    simp [asWritten] at h
  unfold lower at h
  split at h
  · simp at h
  · split at h <;> simp [asWritten] at h
  · split at h
    · simp [asWritten] at h
    · obtain ⟨-, rfl, rfl, -⟩ := Expr.call.inj h
      exact ⟨fun e he => mem_filterMap_positional?.1 he, fun kw hkw => mem_filterMap_keyword?.1 hkw⟩
  · simp only at h
    split at h <;> simp [asWritten] at h
  · exact absurd rfl hkind
  · simp [asWritten] at h

/-- What a call of a script has for a name is lowered from a node of it. -/
theorem exists_of_mem_keywords {func : Expr} {args : List Expr} {keywords : List (Keyword Expr)}
    {span : Option Span} (h : lower source t = .call func args keywords span) {arg : String}
    (he : ⟨some arg, e⟩ ∈ keywords) : ∃ x ∈ t.nodes, e = lower source x := by
  obtain ⟨x, hx, -, hkeywords⟩ := exists_of_lower_eq_call h
  obtain ⟨y, hy, heq⟩ | ⟨-, hnone⟩ := hasOrigin_of_mem_lowerArguments (hkeywords _ he)
  · exact ⟨y, Tree.mem_nodes_trans hx (Tree.mem_nodes.2 (.inr (Tree.mem_nodesAll.1 hy))), heq⟩
  · exact absurd (hnone _ rfl) (by simp)

/-- No literal of a script is new, wherever it stands in an expression. -/
theorem newStrings_lower (source : Text) (t : Tree) : (lower source t).newStrings = [] := by
  suffices h : ∀ x ∈ t.nodes, (lower source x).newStrings = [] from h t t.self_mem_nodes
  induction t using Tree.inductionOn with
  | node k r s cs ih =>
    have hchild : ∀ {r e}, lowerIn source r cs = some e → e.newStrings = [] := by
      intro r e he
      obtain ⟨c, hc, rfl⟩ := exists_of_lowerIn he
      exact ih c hc c c.self_mem_nodes
    have hargument : ∀ a ∈ lowerArguments source cs, a.value.newStrings = [] := by
      intro a ha
      obtain ⟨y, hy, heq⟩ | ⟨⟨text, atomic, span, heq⟩, -⟩ := hasOrigin_of_mem_lowerArguments ha
      · obtain ⟨c, hc, hy⟩ := Tree.mem_nodesAll.1 hy
        rw [heq, ih c hc y hy]
      · rw [heq, Expr.newStrings]
    have hself : (lower source (.node k r s cs)).newStrings = [] := by
      unfold lower
      split
      · rfl
      · split
        · next hvalue _ => rw [Expr.newStrings, hchild hvalue]
        · rfl
      · split
        · rfl
        · next hfunc =>
          exact Expr.newStrings_call_eq_nil_iff.2 ⟨hchild hfunc,
            fun e he => hargument _ (mem_filterMap_positional?.1 he),
            fun kw hkw => hargument _ (mem_filterMap_keyword?.1 hkw)⟩
      · simp only
        split <;> rfl
      · split
        · split
          · rfl
          · exact ih _ (List.mem_singleton_self _) _ (Tree.self_mem_nodes _)
        · rfl
      · rfl
    intro x hx
    rcases Tree.mem_nodes.1 hx with rfl | ⟨c, hc, hx⟩
    · exact hself
    · exact ih c hc x hx

end Script

end Redeploy
