import Redeploy.Proofs.Syntax.Layout
import Redeploy.Proofs.Syntax.Reads
import Redeploy.Syntax.Grammar

set_option autoImplicit false

/-! # Balanced brackets

Whatever a phrase of the grammar reads leaves as many brackets open as there were before
(`Reads.whole`). Within a phrase, a rule may open one bracket or close one; `Rule.balance` computes
which of these a rule does, if it does the same whatever it reads. -/

namespace Redeploy.Syntax

/-- What is done to the number of open brackets. -/
inductive Balance where
  /-- It stays as it is. -/
  | keeps
  /-- One more is open. -/
  | opens
  /-- One less is open. -/
  | closes
  deriving DecidableEq

namespace Balance

/-- One thing and then another, if no more than one bracket is opened or closed. -/
def seq : Balance → Balance → Option Balance
  | keeps, b => some b
  | b, keeps => some b
  | opens, closes => some keeps
  | _, _ => none

/-- What it means for tokens. -/
def Holds : Balance → List Token → Prop
  | keeps, ts => ∀ n, Token.depthBehind n ts = n
  | opens, ts => ∀ n, Token.depthBehind n ts = n + 1
  | closes, ts => ∀ n, Token.depthBehind (n + 1) ts = n

theorem Holds.append {a b c : Balance} {ts us : List Token} (hts : a.Holds ts) (hus : b.Holds us)
    (h : a.seq b = some c) : c.Holds (ts ++ us) := by
  cases a <;> cases b <;> simp only [seq, Option.some.injEq, reduceCtorEq] at h <;> subst h <;>
    intro n <;> rw [Token.depthBehind_append, hts, hus]

end Balance

/-- The symbols that open brackets. -/
def openingSymbols : List String := ["(", "[", "\x7b"]

/-- The symbols that close brackets. -/
def closingSymbols : List String := [")", "]", "\x7d"]

/-- What a token that passes a test does to the number of open brackets. -/
def Terminal.balance : Terminal → Option Balance
  | .symbol ss =>
    if ss.all fun s => openingSymbols.contains s then some .opens
    else if ss.all fun s => closingSymbols.contains s then some .closes
    else if ss.any fun s => openingSymbols.contains s || closingSymbols.contains s then none
    else some .keeps
  | .kind .interpolationStart => some .opens
  | .kind .interpolationEnd => some .closes
  | .kind .symbol => none
  | _ => some .keeps

namespace Token

theorem opens_eq_of_symbol {t : Token} {s : String} (hkind : t.kind = .symbol)
    (htext : t.text = s.toList) : t.opens = openingSymbols.contains s ∧
      t.closes = closingSymbols.contains s := by
  obtain ⟨kind, text, span⟩ := t
  subst hkind htext
  have heq : ∀ r : String, (s.toList == r.toList) = (s == r) := by
    intro r
    rw [Bool.eq_iff_iff, beq_iff_eq, beq_iff_eq, String.toList_inj]
  have hstart : (TokenKind.symbol == .interpolationStart) = false := rfl
  have hend : (TokenKind.symbol == .interpolationEnd) = false := rfl
  simp only [opens, closes, isSymbol, heq, hstart, hend, beq_self_eq_true, Bool.true_and,
    Bool.false_or, openingSymbols, closingSymbols, List.contains_cons, List.contains_nil,
    Bool.or_false, Bool.or_assoc, and_self]

theorem opens_eq_false_of_kind {t : Token} (hsymbol : t.kind ≠ .symbol)
    (hstart : t.kind ≠ .interpolationStart) (hend : t.kind ≠ .interpolationEnd) :
    t.opens = false ∧ t.closes = false := by
  simp [opens, closes, isSymbol, hsymbol, hstart, hend]

theorem depthBehind_singleton (n : Nat) (t : Token) :
    depthBehind n [t] = if t.opens then n + 1 else if t.closes then n - 1 else n := rfl

end Token

theorem closingSymbols_not_opening : ∀ s ∈ closingSymbols, openingSymbols.contains s = false := by
  decide

theorem Terminal.holds_balance {t : Terminal} {token : Token} {b : Balance}
    (hb : t.balance = some b) (h : t.accepts token = true) : b.Holds [token] := by
  have hother : t.balance = some .keeps → token.opens = false ∧ token.closes = false →
      b.Holds [token] := by
    rintro hkeeps ⟨hopens, hcloses⟩
    obtain rfl : Balance.keeps = b := Option.some.inj (hkeeps.symm.trans hb)
    intro n
    simp [Token.depthBehind_singleton, hopens, hcloses]
  cases t with
  | word ws =>
    simp only [accepts, Bool.and_eq_true, beq_iff_eq] at h
    exact hother rfl (Token.opens_eq_false_of_kind (by simp [h.1]) (by simp [h.1]) (by simp [h.1]))
  | wordExcept ws =>
    simp only [accepts, Bool.and_eq_true, beq_iff_eq] at h
    exact hother rfl (Token.opens_eq_false_of_kind (by simp [h.1]) (by simp [h.1]) (by simp [h.1]))
  | symbol ss =>
    simp only [accepts, Bool.and_eq_true, beq_iff_eq, List.any_eq_true] at h
    obtain ⟨hkind, s, hs, htext⟩ := h
    obtain ⟨hopens, hcloses⟩ := Token.opens_eq_of_symbol hkind htext
    simp only [balance] at hb
    split at hb
    · next hall =>
      obtain rfl : Balance.opens = b := Option.some.inj hb
      have hs' := List.all_eq_true.1 hall s hs
      intro n
      rw [Token.depthBehind_singleton, hopens, hs', if_pos rfl]
    · split at hb
      · next hall =>
        obtain rfl : Balance.closes = b := Option.some.inj hb
        have hs' := List.all_eq_true.1 hall s hs
        have hnot := closingSymbols_not_opening s (List.contains_iff_mem.1 hs')
        intro n
        rw [Token.depthBehind_singleton, hopens, hcloses, hs', hnot, if_neg (by simp), if_pos rfl,
          Nat.add_sub_cancel]
      · split at hb
        · simp at hb
        · next hany =>
          obtain rfl : Balance.keeps = b := Option.some.inj hb
          rw [Bool.not_eq_true, List.any_eq_false] at hany
          have hs' := hany s hs
          rw [Bool.not_eq_true, Bool.or_eq_false_iff] at hs'
          intro n
          rw [Token.depthBehind_singleton, hopens, hcloses, hs'.1, hs'.2, if_neg (by simp),
            if_neg (by simp)]
  | kind k =>
    simp only [accepts, beq_iff_eq] at h
    by_cases hstart : k = .interpolationStart
    · subst hstart
      obtain rfl : Balance.opens = b := Option.some.inj hb
      intro n
      simp [Token.depthBehind_singleton, Token.opens, h]
    by_cases hend : k = .interpolationEnd
    · subst hend
      obtain rfl : Balance.closes = b := Option.some.inj hb
      intro n
      simp [Token.depthBehind_singleton, Token.opens, Token.closes, Token.isSymbol, h]
    by_cases hsymbol : k = .symbol
    · subst hsymbol
      simp [balance] at hb
    · refine hother ?_ (Token.opens_eq_false_of_kind (h ▸ hsymbol) (h ▸ hstart) (h ▸ hend))
      cases k <;> first | rfl | contradiction

/-! ## Rules -/

variable {N : Type}

/-- What a rule does to the number of open brackets, if it is always the same and phrases keep the
    number. -/
def Rule.balance : Rule N → Option Balance
  | .empty | .become _ | .ahead _ | .notAhead _ | .ref _ => some .keeps
  | .token t => t.balance
  | .seq a b => a.balance.bind fun x => b.balance.bind x.seq
  | .alt a b => if a.balance = b.balance then a.balance else none
  | .many a => if a.balance = some .keeps then some .keeps else none
  | .node _ a | .wrap _ _ a | .role _ a | .only _ a => a.balance

theorem Reads.holds_balance {g : N → Rule N} (hg : ∀ n, (g n).balance = some .keeps) {rule : Rule N}
    {us : List Use} {f f' : Frame} (h : Reads g rule us f f') :
    ∀ b, rule.balance = some b → b.Holds (Use.tokens us) := by
  induction h with
  | empty | become | ahead | notAhead =>
    intro b hb
    obtain rfl : Balance.keeps = b := Option.some.inj hb
    exact fun _ => rfl
  | manyNil =>
    intro b hb
    simp only [Rule.balance, Option.ite_none_right_eq_some, Option.some.injEq] at hb
    obtain ⟨-, rfl⟩ := hb
    exact fun _ => rfl
  | token _ hacc => exact fun b hb => Terminal.holds_balance hb hacc
  | seq _ _ iha ihb =>
    intro c hc
    obtain ⟨x, hx, hc⟩ := Option.bind_eq_some_iff.1 hc
    obtain ⟨y, hy, hc⟩ := Option.bind_eq_some_iff.1 hc
    rw [Use.tokens_append]
    exact (iha x hx).append (ihb y hy) hc
  | altLeft _ ih =>
    intro b hb
    simp only [Rule.balance, Option.ite_none_right_eq_some] at hb
    exact ih b hb.2
  | altRight _ ih =>
    intro b hb
    simp only [Rule.balance, Option.ite_none_right_eq_some] at hb
    exact ih b (hb.1 ▸ hb.2)
  | manyCons _ _ _ iha ihb =>
    intro b hb
    have hb' := hb
    simp only [Rule.balance, Option.ite_none_right_eq_some, Option.some.injEq] at hb'
    obtain ⟨ha, rfl⟩ := hb'
    rw [Use.tokens_append]
    exact (iha _ ha).append (ihb _ hb) rfl
  | ref _ ih =>
    intro b hb
    obtain rfl : Balance.keeps = b := Option.some.inj hb
    exact ih _ (hg _)
  | node _ ih | wrap _ ih | role _ ih | only _ _ ih => exact ih

/-- As many brackets are open behind some tokens as in front of them. -/
def Whole (us : List Use) : Prop := ∀ n, Token.depthBehind n (Use.tokens us) = n

theorem Whole.append {us vs : List Use} (hus : Whole us) (hvs : Whole vs) : Whole (us ++ vs) := by
  intro n
  rw [Use.tokens_append, Token.depthBehind_append, hus, hvs]

/-- What a rule of the grammar that neither opens nor closes a bracket reads. -/
theorem Reads.whole {rule : Rule Phrase} {us : List Use} {f f' : Frame}
    (h : Reads Grammar.rule rule us f f') (hrule : rule.balance = some .keeps) : Whole us :=
  h.holds_balance (fun n => by cases n <;> rfl) .keeps hrule

end Redeploy.Syntax
