import Redeploy.Proofs.Syntax.Depth

set_option autoImplicit false

/-! # What a rule makes of tokens

`outcome` is what a rule makes of the tokens in front of it, without the bound on depth and without
the numbers that only serve to tell where a fault is. It follows the rule (`outcome_seq` and the like),
so that the reading of tokens that are not known one by one can be worked out as if it were run; and
what `outcome` says of all tokens of a script is what the script is read as (`readTokens_eq_ok`). -/

namespace Redeploy.Syntax

/-- How far a reading has come, and what it has built. -/
structure Stage where
  /-- The tokens still to be read. -/
  rest : List Token
  /-- The token read last. -/
  prev : Token
  /-- The kind of the node that is being built. -/
  kind : Kind
  /-- The nodes built under it, the last one first. -/
  built : List Tree

/-- A point of a reading without its numbers. -/
def Reading.stage (s : Reading) : Stage :=
  ⟨s.rest, s.prev, s.kind, s.built⟩

namespace Stage

/-- A reading at a point. -/
def reading (x : Stage) : Reading :=
  ⟨x.rest, 0, x.prev, x.kind, x.built, 0⟩

/-- The same point with nodes of another parent. -/
def under (x : Stage) (kind : Kind) (built : List Tree) : Stage :=
  { x with kind := kind, built := built }

/-- Behind a token. -/
def behind (x : Stage) (token : Token) (rest : List Token) : Stage :=
  { x with rest := rest, prev := token }

/-- Go on from an inner point with one node more, if something has been read since. -/
def withNode (x inner : Stage) (start : Span) (before : List Tree) : Option Stage :=
  if inner.rest.length < x.rest.length then
    some { inner with
      kind := x.kind
      built := .node inner.kind none (start.upTo inner.prev.span) inner.built.reverse :: before }
  else none

/-- Look at the next token without reading it. -/
def look (x : Stage) (t : Terminal) (expected : Bool) : Option Stage :=
  if x.rest.head?.any t.accepts == expected then some x else none

end Stage

/-- The point that a reading comes to. -/
def stageOf : Except Nat Reading → Option Stage
  | .ok s => some s.stage
  | .error _ => none

@[simp] theorem stageOf_ok (s : Reading) : stageOf (.ok s) = some s.stage := rfl

@[simp] theorem stageOf_error (n : Nat) : stageOf (.error n) = none := rfl

@[simp] theorem stageOf_stuck (s : Reading) : stageOf s.stuck = none := rfl

theorem stageOf_eq_some {r : Except Nat Reading} {x : Stage} :
    stageOf r = some x ↔ ∃ s, r = .ok s ∧ s.stage = x := by
  cases r <;> simp

/-! ## The numbers do not matter -/

/-- What a rule makes of a point, told by what its parts make of theirs. -/
def Rule.outcomeBy (o : Rule Phrase → Stage → Option Stage) (r : Rule Phrase) (x : Stage) :
    Option Stage :=
  match r with
  | .empty => some x
  | .token t =>
    match x.rest with
    | first :: rest => if t.accepts first then some (x.behind first rest) else none
    | [] => none
  | .seq a b => (o a x).bind (o b)
  | .alt a b => (o a x).or (o b x)
  | .many a =>
    match o a x with
    | some y => if y.rest.length < x.rest.length then o (.many a) y else some x
    | none => some x
  | .ref p => o (Grammar.rule p) x
  | .node k a =>
    match x.rest with
    | [] => none
    | first :: _ => (o a (x.under k [])).bind fun y => x.withNode y first.span x.built
  | .wrap k r a =>
    match x.built with
    | [] => none
    | head :: before =>
      (o a (x.under k [(r.map head.withRole).getD head])).bind fun y =>
        x.withNode y head.span before
  | .become k => some { x with kind := k }
  | .role r a =>
    (o a (x.under x.kind [])).map fun y =>
      { y with built := y.built.map (Tree.withRole r) ++ x.built }
  | .only ks a =>
    (o a (x.under x.kind [])).bind fun y =>
      if y.built.all fun t => ks.contains t.kind then some { y with built := y.built ++ x.built }
      else none
  | .ahead t => x.look t true
  | .notAhead t => x.look t false

/-- What a rule makes of a point with a bound on depth. -/
def outcomeAt : (depth : Nat) → Rule Phrase → Stage → Option Stage
  | 0, _, _ => none
  | depth + 1, r, x => r.outcomeBy (outcomeAt depth) x

theorem stageOf_look (s : Reading) (t : Terminal) (expected : Bool) :
    stageOf (s.look t expected) = s.stage.look t expected := by
  obtain ⟨rest, count, prev, kind, built, reach⟩ := s
  cases rest with
  | nil => cases expected <;> rfl
  | cons token rest =>
    show stageOf (if t.accepts token == expected then _ else _) =
      if t.accepts token == expected then _ else _
    split <;> rfl

theorem stageOf_withNode {s s' : Reading} (start : Span) (before : List Tree)
    (hcount : s'.count + s'.rest.length = s.count + s.rest.length) :
    stageOf (if s.count < s'.count then .ok (s.withNode s'
      (.node s'.kind none (start.upTo s'.prev.span) s'.built.reverse) before) else s.stuck) =
      s.stage.withNode s'.stage start before := by
  show _ = if s'.rest.length < s.rest.length then _ else _
  by_cases h : s.count < s'.count
  · rw [if_pos h, if_pos (by omega)]
    rfl
  · rw [if_neg h, if_neg (by omega)]
    rfl

/-- What a reading comes to depends on its point alone. -/
theorem stageOf_read (d : Nat) (r : Rule Phrase) (s : Reading) :
    stageOf (Rule.read Grammar.rule d r s) = outcomeAt d r s.stage := by
  induction d generalizing r s with
  | zero => rfl
  | succ d ih =>
    rw [outcomeAt]
    cases r with
    | empty | become => rfl
    | token t =>
      show stageOf (s.readToken t) = _
      obtain ⟨rest, count, prev, kind, built, reach⟩ := s
      cases rest with
      | nil => rfl
      | cons token rest =>
        show stageOf (if t.accepts token then _ else _) = if t.accepts token then _ else _
        split <;> rfl
    | seq a b =>
      simp only [Rule.read, Rule.outcomeBy, ← ih a]
      cases Rule.read Grammar.rule d a s with
      | error n => rfl
      | ok s' => exact ih b s'
    | alt a b =>
      simp only [Rule.read, Rule.outcomeBy, ← ih a]
      cases Rule.read Grammar.rule d a s with
      | error n => exact ih b { s with reach := max s.reach n }
      | ok s' => rfl
    | many a =>
      simp only [Rule.read, Rule.outcomeBy, ← ih a]
      cases hread : Rule.read Grammar.rule d a s with
      | error n => rfl
      | ok s' =>
        have hcount := (length_rest_of_read hread).2.2
        show stageOf (if s.count < s'.count then _ else _) =
          if s'.rest.length < s.rest.length then outcomeAt d (.many a) s'.stage else _
        by_cases h : s.count < s'.count
        · rw [if_pos h, if_pos (by omega), ih]
        · rw [if_neg h, if_neg (by omega)]
          rfl
    | ref p => exact ih _ s
    | node k a =>
      simp only [Rule.read, Rule.outcomeBy, show s.stage.rest = s.rest from rfl]
      cases s.rest with
      | nil => rfl
      | cons first rest =>
        rw [show s.stage.under k [] = (s.under k []).stage from rfl, ← ih a]
        cases hread : Rule.read Grammar.rule d a (s.under k []) with
        | error n => rfl
        | ok s' =>
          exact stageOf_withNode first.span s.built (length_rest_of_read hread).2.2
    | wrap k r a =>
      simp only [Rule.read, Rule.outcomeBy, show s.stage.built = s.built from rfl]
      cases s.built with
      | nil => rfl
      | cons head before =>
        have hinner : ∀ first, outcomeAt d a (s.stage.under k [first]) =
            stageOf (Rule.read Grammar.rule d a (s.under k [first])) :=
          fun first => (ih a (s.under k [first])).symm
        cases r
        all_goals
          dsimp only [Option.map_none, Option.map_some, Option.getD_none, Option.getD_some]
          rw [hinner]
          cases hread : Rule.read Grammar.rule d a _ with
          | error n => rfl
          | ok s' => exact stageOf_withNode head.span before (length_rest_of_read hread).2.2
    | role r a =>
      simp only [Rule.read, Rule.outcomeBy]
      rw [show s.stage.under s.stage.kind [] = Reading.stage { s with built := [] } from rfl, ← ih a]
      cases Rule.read Grammar.rule d a { s with built := [] } <;> rfl
    | only ks a =>
      simp only [Rule.read, Rule.outcomeBy]
      rw [show s.stage.under s.stage.kind [] = Reading.stage { s with built := [] } from rfl, ← ih a]
      cases Rule.read Grammar.rule d a { s with built := [] } with
      | error n => rfl
      | ok s' =>
        show stageOf (if s'.built.all _ then _ else _) = if s'.built.all _ then _ else _
        split <;> rfl
    | ahead t => exact stageOf_look ..
    | notAhead t => exact stageOf_look ..

/-! ## Outcomes -/

/-- What a rule makes of a point; `none` if it cannot be read there. -/
def outcome (r : Rule Phrase) (x : Stage) : Option Stage :=
  outcomeAt (r.need x.reading) r x

/-- Every bound that is large enough gives the outcome. -/
theorem outcomeAt_eq {d : Nat} {r : Rule Phrase} {x : Stage} (h : r.need x.reading ≤ d) :
    outcomeAt d r x = outcome r x := by
  rw [outcome, ← show x.reading.stage = x from rfl, ← stageOf_read, ← stageOf_read]
  exact congrArg stageOf (read_congr h (Nat.le_refl _))

/-- An outcome is where a reading comes to. -/
theorem exists_read_of_outcome {r : Rule Phrase} {x y : Stage} (h : outcome r x = some y) :
    ∃ d s, Rule.read Grammar.rule d r x.reading = .ok s ∧ s.stage = y := by
  rw [outcome, ← show x.reading.stage = x from rfl, ← stageOf_read] at h
  cases hread : Rule.read Grammar.rule (r.need x.reading) r x.reading with
  | error n =>
    rw [show x.reading.stage.reading = x.reading from rfl, hread] at h
    simp at h
  | ok s =>
    rw [show x.reading.stage.reading = x.reading from rfl, hread, stageOf_ok, Option.some.injEq] at h
    exact ⟨_, s, hread, h⟩

/-- The outcome of a rule is told by the outcomes of its parts. -/
theorem outcome_eq (r : Rule Phrase) (x : Stage) : outcome r x = r.outcomeBy outcome x := by
  obtain ⟨d, hd⟩ : ∃ d, r.need x.reading = d + 1 := by
    have := r.lead_pos
    exact ⟨r.need x.reading - 1, by unfold Rule.need; omega⟩
  -- a part that is read at once
  have hpart : ∀ (a : Rule Phrase) (y : Stage), a.limit ≤ r.limit → a.lead < r.lead →
      y.rest = x.rest → outcomeAt d a y = outcome a y := by
    intro a y hlimit hlead hrest
    have := Rule.need_lt (s := x.reading) hlimit hlead (show y.reading.rest = x.reading.rest from hrest)
    exact outcomeAt_eq (by omega)
  rw [outcome, hd, outcomeAt]
  cases r with
  | empty | token | become | ahead | notAhead => rfl
  | seq a b =>
    simp only [Rule.outcomeBy]
    rw [hpart a x (by simp only [Rule.limit]; omega) (by simp only [Rule.lead]; split <;> omega) rfl]
    cases ha : outcome a x with
    | none => rfl
    | some y =>
      obtain ⟨_, s, hread, rfl⟩ := exists_read_of_outcome ha
      have hneed : b.need s < (Rule.seq a b).need x.reading := Rule.need_seq hread
      have hsame : b.need s.stage.reading = b.need s := rfl
      exact outcomeAt_eq (by omega)
  | alt a b =>
    simp only [Rule.outcomeBy]
    rw [hpart a x (by simp only [Rule.limit]; omega) (by simp only [Rule.lead]; omega) rfl,
      hpart b x (by simp only [Rule.limit]; omega) (by simp only [Rule.lead]; omega) rfl]
  | many a =>
    simp only [Rule.outcomeBy]
    rw [hpart a x (by simp only [Rule.limit]; omega) (by simp only [Rule.lead]; omega) rfl]
    cases outcome a x with
    | none => rfl
    | some y =>
      dsimp only
      split
      · next hlt =>
        have hneed : (Rule.many a).need y.reading < d + 1 :=
          hd ▸ Rule.need_lt_of_lt (Nat.le_refl _) hlt
        exact outcomeAt_eq (by omega)
      · rfl
  | ref p =>
    refine hpart _ x (Nat.le_trans (limit_rule p) (Rule.le_limit _)) ?_ rfl
    have := lead_rule p
    simp only [Rule.lead]
    omega
  | node k a =>
    simp only [Rule.outcomeBy]
    rw [hpart a (x.under k []) (by simp only [Rule.limit]; omega) (by simp only [Rule.lead]; omega) rfl]
  | wrap k r a =>
    have ha := fun ts => hpart a (x.under k ts) (by simp only [Rule.limit]; omega)
      (by simp only [Rule.lead]; omega) rfl
    simp only [Rule.outcomeBy, ha]
  | role r a =>
    simp only [Rule.outcomeBy]
    rw [hpart a (x.under x.kind []) (by simp only [Rule.limit]; omega)
      (by simp only [Rule.lead]; omega) rfl]
  | only ks a =>
    simp only [Rule.outcomeBy]
    rw [hpart a (x.under x.kind []) (by simp only [Rule.limit]; omega)
      (by simp only [Rule.lead]; omega) rfl]

/-! ## Rule by rule -/

section

variable {a b : Rule Phrase} {x y : Stage}

theorem outcome_empty (x : Stage) : outcome .empty x = some x := outcome_eq _ _

theorem outcome_become (k : Kind) (x : Stage) : outcome (.become k) x = some { x with kind := k } :=
  outcome_eq _ _

theorem outcome_ahead (t : Terminal) (x : Stage) : outcome (.ahead t) x = x.look t true :=
  outcome_eq _ _

theorem outcome_notAhead (t : Terminal) (x : Stage) : outcome (.notAhead t) x = x.look t false :=
  outcome_eq _ _

theorem outcome_seq (a b : Rule Phrase) (x : Stage) :
    outcome (.seq a b) x = (outcome a x).bind (outcome b) := outcome_eq _ _

theorem outcome_alt (a b : Rule Phrase) (x : Stage) :
    outcome (.alt a b) x = (outcome a x).or (outcome b x) := outcome_eq _ _

theorem outcome_ref (p : Phrase) (x : Stage) : outcome (.ref p) x = outcome (Grammar.rule p) x :=
  outcome_eq _ _

theorem outcome_role (r : Role) (a : Rule Phrase) (x : Stage) : outcome (.role r a) x =
    (outcome a (x.under x.kind [])).map fun y =>
      { y with built := y.built.map (Tree.withRole r) ++ x.built } := outcome_eq _ _

theorem outcome_only (ks : List Kind) (a : Rule Phrase) (x : Stage) : outcome (.only ks a) x =
    (outcome a (x.under x.kind [])).bind fun y =>
      if y.built.all fun t => ks.contains t.kind then some { y with built := y.built ++ x.built }
      else none := outcome_eq _ _

/-- A token that passes the test is read. -/
theorem outcome_token {t : Terminal} {first : Token} {rest : List Token} (hrest : x.rest = first :: rest)
    (hacc : t.accepts first = true) : outcome (.token t) x = some (x.behind first rest) := by
  rw [outcome_eq, Rule.outcomeBy, hrest]
  exact if_pos hacc

/-- A token that does not pass the test is not. -/
theorem outcome_token_none {t : Terminal} (h : ∀ first ∈ x.rest.head?, t.accepts first = false) :
    outcome (.token t) x = none := by
  rw [outcome_eq, Rule.outcomeBy]
  cases hrest : x.rest with
  | nil => rfl
  | cons first rest =>
    have := h first (by rw [hrest]; rfl)
    simp [this]

theorem outcome_many_none (h : outcome a x = none) : outcome (.many a) x = some x := by
  rw [outcome_eq, Rule.outcomeBy, h]

theorem outcome_many_some (h : outcome a x = some y) (hlt : y.rest.length < x.rest.length) :
    outcome (.many a) x = outcome (.many a) y := by
  rw [outcome_eq, Rule.outcomeBy, h]
  exact if_pos hlt

/-- What is read by the rule of a node is put under the node. -/
theorem outcome_node {k : Kind} {first : Token} {rest : List Token} (hrest : x.rest = first :: rest)
    (ha : outcome a (x.under k []) = some y) (hlt : y.rest.length < x.rest.length) :
    outcome (.node k a) x = some ⟨y.rest, y.prev, x.kind,
      .node y.kind none (first.span.upTo y.prev.span) y.built.reverse :: x.built⟩ := by
  rw [outcome_eq, Rule.outcomeBy, hrest]
  simp only [ha, Option.bind_some, Stage.withNode]
  rw [if_pos hlt]

theorem outcome_node_none {k : Kind} (ha : outcome a (x.under k []) = none) :
    outcome (.node k a) x = none := by
  rw [outcome_eq, Rule.outcomeBy]
  cases x.rest with
  | nil => rfl
  | cons first rest => simp only [ha, Option.bind_none]

/-- What is read by the rule of a wrapping node is put under it behind the node built last. -/
theorem outcome_wrap {k : Kind} {r : Option Role} {head : Tree} {before : List Tree}
    (hbuilt : x.built = head :: before)
    (ha : outcome a (x.under k [(r.map head.withRole).getD head]) = some y)
    (hlt : y.rest.length < x.rest.length) :
    outcome (.wrap k r a) x = some ⟨y.rest, y.prev, x.kind,
      .node y.kind none (head.span.upTo y.prev.span) y.built.reverse :: before⟩ := by
  rw [outcome_eq, Rule.outcomeBy, hbuilt]
  simp only [ha, Option.bind_some, Stage.withNode]
  rw [if_pos hlt]

theorem outcome_wrap_none {k : Kind} {r : Option Role}
    (ha : ∀ built, outcome a (x.under k built) = none) : outcome (.wrap k r a) x = none := by
  rw [outcome_eq, Rule.outcomeBy]
  cases x.built with
  | nil => rfl
  | cons head before => simp only [ha, Option.bind_none]

end

/-! ## All tokens of a script -/

/-- The point in front of all tokens. -/
def Stage.start (ts : List Token) : Stage :=
  ⟨ts, default, .module, []⟩

/-- Tokens that are read to their end as statements make up these statements. -/
theorem readTokens_eq_ok {ts : List Token} {x : Stage}
    (h : outcome (.many (.ref .statement)) (.start ts) = some x) (hend : x.rest = []) :
    readTokens ts = .ok x.built.reverse := by
  have hneed : (Rule.many (.ref .statement)).need (Stage.start ts).reading ≤ readingDepth ts := by
    show 80 + 400 * ts.length ≤ 400 * (ts.length + 2)
    omega
  rw [← outcomeAt_eq hneed, ← show (Stage.start ts).reading.stage = Stage.start ts from rfl,
    ← stageOf_read] at h
  obtain ⟨s, hread, rfl⟩ := stageOf_eq_some.1 h
  unfold readTokens
  rw [show (⟨ts, 0, default, .module, [], 0⟩ : Reading) = (Stage.start ts).reading from rfl]
  simp only [hread, show s.rest = [] from hend, List.isEmpty_nil, if_true]
  rfl

end Redeploy.Syntax
