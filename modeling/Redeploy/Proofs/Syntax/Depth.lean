import Redeploy.Proofs.Syntax.Built
import Redeploy.Syntax.Parse

set_option autoImplicit false

/-! # Reading never gets too deep

`Rule.read` is given a bound on how deep rules are nested in each other. The bound is never met: how
deep reading can go before it reads a token depends on the rule alone (`Rule.lead`), and on no rule of
the grammar is that more than a fixed number (`lead_rule`). So every bound that grows with the number of
tokens as `readingDepth` does gives the same result (`read_congr`), and what is read can be spoken of
without a bound. -/

namespace Redeploy.Syntax

/-! ## How deep a rule leads -/

/-- How deep the reading of a phrase can go before it reads a token. -/
def Phrase.lead : Phrase → Nat
  | .statement => 78
  | .simpleStatements => 68
  | .suite => 71
  | .elseClause => 3
  | .dottedName => 4
  | .importList => 9
  | .parameter => 9
  | .typeHint => 48
  | .target => 19
  | .targetList => 21
  | .assignment => 25
  | .rightSide => 51
  | .expressions => 47
  | .yieldExpression => 3
  | .expression => 45
  | .disjunction => 42
  | .conjunction => 40
  | .inversion => 38
  | .comparison => 34
  | .bitOr => 32
  | .bitXor => 30
  | .bitAnd => 28
  | .shift => 26
  | .sum => 24
  | .product => 22
  | .unary => 20
  | .power => 17
  | .postfixed => 15
  | .atom => 13
  | .strings => 4
  | .interpolation => 3
  | .arguments => 3
  | .comprehension => 5
  | .element => 48
  | .casePattern => 24
  | .simplePattern => 19

namespace Rule

/-- Whether a rule reads a token if it reads anything. Every phrase does. -/
def consumes : Rule Phrase → Bool
  | .token _ | .ref _ | .node _ _ | .wrap _ _ _ => true
  | .seq a b => a.consumes || b.consumes
  | .alt a b => a.consumes && b.consumes
  | .role _ a | .only _ a => a.consumes
  | .empty | .many _ | .become _ | .ahead _ | .notAhead _ => false

/-- How deep the reading of a rule can go before it reads a token. -/
def lead : Rule Phrase → Nat
  | .seq a b => 1 + if a.consumes then a.lead else max a.lead b.lead
  | .alt a b => 1 + max a.lead b.lead
  | .ref p => 1 + p.lead
  | .many a | .node _ a | .wrap _ _ a | .role _ a | .only _ a => 1 + a.lead
  | .empty | .token _ | .become _ | .ahead _ | .notAhead _ => 1

/-- What each token may add to the depth of reading: no part of the rule leads deeper than that. -/
def limit : Rule Phrase → Nat
  | .seq a b => max (lead (.seq a b)) (max a.limit b.limit)
  | .alt a b => max (lead (.alt a b)) (max a.limit b.limit)
  | .many a => max (lead (.many a)) a.limit
  | .node k a => max (lead (.node k a)) a.limit
  | .wrap k r a => max (lead (.wrap k r a)) a.limit
  | .role r a => max (lead (.role r a)) a.limit
  | .only ks a => max (lead (.only ks a)) a.limit
  | .empty | .token _ | .ref _ | .become _ | .ahead _ | .notAhead _ => 400

end Rule

theorem consumes_rule (p : Phrase) : (Grammar.rule p).consumes = true := by
  cases p <;> decide +kernel

theorem lead_rule (p : Phrase) : (Grammar.rule p).lead ≤ p.lead := by
  cases p <;> decide +kernel

theorem limit_rule (p : Phrase) : (Grammar.rule p).limit ≤ 400 := by
  cases p <;> decide +kernel

/-! ## The bound does not matter -/

theorem Rule.lead_pos (r : Rule Phrase) : 0 < r.lead := by
  cases r <;> simp only [lead] <;> omega

theorem Rule.le_limit (r : Rule Phrase) : 400 ≤ r.limit := by
  induction r with
  | seq a b iha ihb | alt a b iha ihb =>
    simp only [limit]
    omega
  | many a ih | node k a ih | wrap k r a ih | role r a ih | only ks a ih =>
    simp only [limit]
    omega
  | empty | token | ref | become | ahead | notAhead => exact Nat.le_refl _

theorem Rule.lead_le_limit (r : Rule Phrase) : r.lead ≤ r.limit := by
  cases r with
  | ref p => cases p <;> decide
  | _ =>
    simp only [limit, lead]
    omega

/-- A rule that reads a token if it reads anything reads no empty list of tokens. -/
theorem Reads.ne_nil {r : Rule Phrase} {us : List Use} {f f' : Frame}
    (h : Reads Grammar.rule r us f f') : r.consumes = true → us ≠ [] := by
  induction h with
  | empty | manyNil | manyCons | become | ahead | notAhead => simp [Rule.consumes]
  | token | node | wrap => simp
  | seq _ _ iha ihb =>
    intro hc hnil
    rw [Rule.consumes, Bool.or_eq_true] at hc
    obtain ⟨rfl, rfl⟩ := List.append_eq_nil_iff.1 hnil
    exact hc.elim (fun h => iha h rfl) (fun h => ihb h rfl)
  | altLeft _ ih =>
    intro hc
    rw [Rule.consumes, Bool.and_eq_true] at hc
    exact ih hc.1
  | altRight _ ih =>
    intro hc
    rw [Rule.consumes, Bool.and_eq_true] at hc
    exact ih hc.2
  | @ref p _ _ _ _ ih => exact fun _ => ih (consumes_rule p)
  | role _ ih | only _ _ ih => exact ih

/-- Reading leaves no more tokens than there were, and fewer after a rule that reads some. -/
theorem length_rest_of_read {d : Nat} {r : Rule Phrase} {s s' : Reading}
    (h : Rule.read Grammar.rule d r s = .ok s') : s'.rest.length ≤ s.rest.length ∧
      (r.consumes = true → s'.rest.length < s.rest.length) ∧
      s'.count + s'.rest.length = s.count + s.rest.length := by
  obtain ⟨us, hreads, hcons⟩ := reads_of_read h
  have hlength : s.rest.length = us.length + s'.rest.length := by
    rw [hcons.rest, List.length_append, Use.tokens, List.length_map]
  have hcount := hcons.count
  refine ⟨by omega, fun hc => ?_, by omega⟩
  have := List.length_pos_iff.2 (hreads.ne_nil hc)
  omega

/-- How deep the reading of a rule can go at all. -/
def Rule.need (r : Rule Phrase) (s : Reading) : Nat :=
  r.lead + r.limit * s.rest.length

theorem Rule.need_lt {a r : Rule Phrase} {s s' : Reading} (hlimit : a.limit ≤ r.limit)
    (hlead : a.lead < r.lead) (hrest : s'.rest = s.rest) : a.need s' < r.need s := by
  unfold need
  have := Nat.mul_le_mul_right s.rest.length hlimit
  rw [hrest]
  omega

/-- Behind a token that has been read, a part of a rule needs no more than the rule. -/
theorem Rule.need_lt_of_lt {a r : Rule Phrase} (hlimit : a.limit ≤ r.limit) {s s' : Reading}
    (hlt : s'.rest.length < s.rest.length) : a.need s' < r.need s := by
  have hlead := a.lead_le_limit
  have hpos := r.lead_pos
  have hless : a.limit * (s'.rest.length + 1) ≤ a.limit * s.rest.length := Nat.mul_le_mul_left _ hlt
  have hmore := Nat.mul_le_mul_right s.rest.length hlimit
  rw [Nat.mul_succ] at hless
  unfold need
  omega

/-- Behind what one rule has read, the next one needs less depth than both of them together. -/
theorem Rule.need_seq {a b : Rule Phrase} {d : Nat} {s s' : Reading}
    (hread : read Grammar.rule d a s = .ok s') : b.need s' < (Rule.seq a b).need s := by
  obtain ⟨hle, hlt, -⟩ := length_rest_of_read hread
  have hlimit : b.limit ≤ (Rule.seq a b).limit := by
    simp only [limit]
    omega
  rcases Nat.lt_or_eq_of_le hle with hlt' | heq
  · exact need_lt_of_lt hlimit hlt'
  · have hc : a.consumes = false := Bool.eq_false_iff.2 fun hc => by
      have := hlt hc
      omega
    have hlead : b.lead < (Rule.seq a b).lead := by
      rw [lead, hc, if_neg Bool.false_ne_true]
      omega
    have := Nat.mul_le_mul_right s.rest.length hlimit
    unfold need
    rw [heq]
    omega

/-- Any two bounds that are large enough give the same result. -/
theorem read_congr {r : Rule Phrase} {d d' : Nat} {s : Reading} (hd : r.need s ≤ d)
    (hd' : r.need s ≤ d') :
    Rule.read Grammar.rule d r s = Rule.read Grammar.rule d' r s := by
  induction d generalizing d' r s with
  | zero =>
    have := r.lead_pos
    unfold Rule.need at hd
    omega
  | succ d ih =>
    obtain _ | d' := d'
    · have := r.lead_pos
      unfold Rule.need at hd'
      omega
    have hpart : ∀ {a : Rule Phrase} {s' : Reading}, a.need s' < r.need s →
        Rule.read Grammar.rule d a s' = Rule.read Grammar.rule d' a s' :=
      fun hlt => ih (by omega) (by omega)
    -- a part that is read at once
    have hinner : ∀ (a : Rule Phrase) (s' : Reading), a.limit ≤ r.limit → a.lead < r.lead →
        s'.rest = s.rest → Rule.read Grammar.rule d a s' = Rule.read Grammar.rule d' a s' :=
      fun _ _ hlimit hlead hrest => hpart (Rule.need_lt hlimit hlead hrest)
    cases r with
    | empty | token | become | ahead | notAhead => rfl
    | seq a b =>
      have ha := hinner a s (by simp only [Rule.limit]; omega)
        (by simp only [Rule.lead]; split <;> omega) rfl
      simp only [Rule.read, ← ha]
      cases hread : Rule.read Grammar.rule d a s with
      | error n => rfl
      | ok s' => exact hpart (Rule.need_seq hread)
    | alt a b =>
      have ha := hinner a s (by simp only [Rule.limit]; omega)
        (by simp only [Rule.lead]; omega) rfl
      simp only [Rule.read, ← ha]
      cases Rule.read Grammar.rule d a s with
      | ok s' => rfl
      | error n =>
        exact hinner b _ (by simp only [Rule.limit]; omega) (by simp only [Rule.lead]; omega) rfl
    | many a =>
      have ha := hinner a s (by simp only [Rule.limit]; omega)
        (by simp only [Rule.lead]; omega) rfl
      simp only [Rule.read, ← ha]
      cases hread : Rule.read Grammar.rule d a s with
      | error n => rfl
      | ok s' =>
        have hcount := (length_rest_of_read hread).2.2
        dsimp only
        split
        · exact hpart (Rule.need_lt_of_lt (Nat.le_refl _) (by omega))
        · rfl
    | ref p =>
      refine hinner _ s (Nat.le_trans (limit_rule p) (Rule.le_limit _)) ?_ rfl
      have := lead_rule p
      simp only [Rule.lead]
      omega
    | node k a =>
      have ha := hinner a (s.under k []) (by simp only [Rule.limit]; omega)
        (by simp only [Rule.lead]; omega) rfl
      simp only [Rule.read, ← ha]
    | wrap k r a =>
      have ha := fun built => hinner a (s.under k built) (by simp only [Rule.limit]; omega)
        (by simp only [Rule.lead]; omega) rfl
      simp only [Rule.read, ← ha]
    | role r a =>
      have ha := hinner a ({ s with built := [] }) (by simp only [Rule.limit]; omega)
        (by simp only [Rule.lead]; omega) rfl
      simp only [Rule.read, ← ha]
    | only ks a =>
      have ha := hinner a ({ s with built := [] }) (by simp only [Rule.limit]; omega)
        (by simp only [Rule.lead]; omega) rfl
      simp only [Rule.read, ← ha]

end Redeploy.Syntax
