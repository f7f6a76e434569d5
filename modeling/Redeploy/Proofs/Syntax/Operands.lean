import Redeploy.Proofs.Syntax.Outcome

set_option autoImplicit false

/-! # Expressions stand by themselves

What an expression is read as does not depend on what follows it, as long as the next token cannot go
on with the expression. `Rule.Yields` says of a rule which nodes it builds from some tokens wherever the
next token does not pass any of some tests, `Rule.Stands` says that it builds one node over the tokens,
and `Rule.Carries` that it puts one node over the tokens and the node built last. The lemmas follow the
ways to put rules together; `Rule.Leads` is the invariant of a repetition that takes the node built last
further and further. -/

namespace Redeploy.Syntax

/-! ## Behind some tokens -/

/-- The span from the first of some tokens to the last. -/
def spanOf (ts : List Token) : Span :=
  (ts.headD default).span.upTo (ts.getLastD default).span

/-- No token that passes one of some tests comes next. -/
def Clear (F : List Terminal) (R : List Token) : Prop :=
  ∀ h ∈ R.head?, ∀ t ∈ F, t.accepts h = false

namespace Stage

/-- Behind some tokens. -/
def past (x : Stage) (ts R : List Token) : Stage :=
  { x with rest := R, prev := ts.getLastD x.prev }

/-- With some nodes more, and perhaps with another kind. -/
def extend (x : Stage) (become : Option Kind) (cs : List Tree) : Stage :=
  { x with kind := become.getD x.kind, built := cs.reverse ++ x.built }

end Stage

namespace Rule

/-- Wherever some tokens are followed by none that passes one of some tests, they are read by a rule,
    all of them and no more, and some nodes are built; the node above may become of another kind. -/
def Yields (r : Rule Phrase) (F : List Terminal) (ts : List Token) (become : Option Kind)
    (cs : List Tree) : Prop :=
  ∀ (x : Stage) (R : List Token), x.rest = ts ++ R → Clear F R →
    outcome r x = some ((x.past ts R).extend become cs)

/-- Wherever some tokens are followed by none that passes one of some tests, they are read by a rule,
    all of them and no more, and make up one node. -/
structure Stands (r : Rule Phrase) (F : List Terminal) (ts : List Token) (t : Tree) : Prop where
  ne_nil : ts ≠ []
  span : t.span = spanOf ts
  yields : r.Yields F ts none [t]

/-- Wherever some tokens are followed by none that passes one of some tests, they are read by a rule,
    all of them and no more, and put another node in the place of the one built last. -/
structure Carries (r : Rule Phrase) (F : List Terminal) (us : List Token) (t t' : Tree) : Prop where
  ne_nil : us ≠ []
  span : t'.span = t.span.upTo (us.getLastD default).span
  reads : ∀ (x : Stage) (R : List Token) (before : List Tree), x.rest = us ++ R →
    x.built = t :: before → Clear F R →
    outcome r x = some { x.past us R with built := t' :: before }

/-- To read a rule and then another one as often as it can be read is to read some tokens and then the
    other rule, wherever the tokens are followed by none that passes one of some tests. -/
structure Leads (a w : Rule Phrase) (F : List Terminal) (ts : List Token) (t : Tree) : Prop where
  ne_nil : ts ≠ []
  span : t.span = spanOf ts
  reads : ∀ (x : Stage) (R : List Token), x.rest = ts ++ R → Clear F R →
    outcome (.seq a (.many w)) x = outcome (.many w) ((x.past ts R).extend none [t])

end Rule

section

variable {F G : List Terminal} {r a b w : Rule Phrase} {ts us R : List Token} {t u v : Tree} {x : Stage}
  {k : Kind} {become become' : Option Kind} {cs ds : List Tree}

theorem clear_nil : Clear F [] := by
  simp [Clear]

theorem clear_cons {o : Token} : Clear F (o :: R) ↔ ∀ t ∈ F, t.accepts o = false := by
  simp [Clear]

theorem Clear.mono (h : Clear G R) (hsub : F ⊆ G) : Clear F R :=
  fun o ho t ht => h o ho t (hsub ht)

theorem Clear.append (h : Clear F us) (hR : us = [] → Clear F R) : Clear F (us ++ R) := by
  cases us with
  | nil => exact hR rfl
  | cons o us => exact h

/-- What comes next where some tokens come first. -/
theorem Clear.rest (h : Clear F ts) (hne : ts ≠ []) (hrest : x.rest = ts ++ R) : Clear F x.rest := by
  rw [hrest]
  exact h.append fun hnil => absurd hnil hne

theorem getLastD_append_of_ne_nil {α : Type} {xs ys : List α} (hys : ys ≠ []) (d d' : α) :
    (xs ++ ys).getLastD d = ys.getLastD d' := by
  simp only [List.getLastD_eq_getLast?, List.getLast?_append]
  cases hlast : ys.getLast? with
  | none => exact absurd (List.getLast?_eq_none_iff.1 hlast) hys
  | some y => rfl

theorem getLastD_append {α : Type} (xs ys : List α) (d : α) :
    (xs ++ ys).getLastD d = ys.getLastD (xs.getLastD d) := by
  simp only [List.getLastD_eq_getLast?, List.getLast?_append]
  cases ys.getLast? <;> rfl

theorem headD_append_of_ne_nil {α : Type} {xs ys : List α} (hxs : xs ≠ []) (d : α) :
    (xs ++ ys).headD d = xs.headD d := by
  cases xs with
  | nil => exact absurd rfl hxs
  | cons x xs => rfl

/-- The span of some tokens up to the last one of some more. -/
theorem spanOf_append (hts : ts ≠ []) (hus : us ≠ []) :
    spanOf (ts ++ us) = (spanOf ts).upTo (us.getLastD default).span := by
  simp only [spanOf, headD_append_of_ne_nil hts, getLastD_append_of_ne_nil hus default default]
  rfl

namespace Stage

theorem past_extend_past (x : Stage) (ts us R S : List Token) :
    ((x.past ts R).extend become cs).past us S = (x.past (ts ++ us) S).extend become cs := by
  simp only [past, extend, getLastD_append]

theorem extend_extend (x : Stage) : (x.extend become cs).extend become' ds =
    x.extend (become'.or become) (cs ++ ds) := by
  cases become' <;> simp [extend]

end Stage

namespace Rule

/-! ## What rules yield -/

theorem Yields.mono (h : r.Yields F ts become cs) (hsub : F ⊆ G) : r.Yields G ts become cs :=
  fun x R hrest hclear => h x R hrest (hclear.mono hsub)

theorem Yields.ref {p : Phrase} (h : (Grammar.rule p).Yields F ts become cs) :
    (Rule.ref p).Yields F ts become cs :=
  fun x R hrest hclear => by rw [outcome_ref, h x R hrest hclear]

theorem yields_empty : (Rule.empty (N := Phrase)).Yields [] [] none [] := by
  intro x R hrest _
  obtain ⟨rest, prev, kind, built⟩ := x
  obtain rfl : rest = R := hrest
  exact outcome_empty _

theorem yields_token {test : Terminal} {o : Token} (hacc : test.accepts o = true) :
    (Rule.token (N := Phrase) test).Yields [] [o] none [] :=
  fun _ _ hrest _ => outcome_token hrest hacc

/-- One thing and then another that does not go on with the first one. -/
theorem Yields.seq (ha : a.Yields F ts become cs) (hb : b.Yields G us become' ds)
    (hclear : Clear F us) (hsub : us = [] → F ⊆ G) :
    (Rule.seq a b).Yields G (ts ++ us) (become'.or become) (cs ++ ds) := by
  intro x R hrest hR
  rw [List.append_assoc] at hrest
  rw [outcome_seq, ha x (us ++ R) hrest (hclear.append fun hnil => hR.mono (hsub hnil)),
    Option.bind_some, hb _ R rfl hR, Stage.past_extend_past, Stage.extend_extend]

theorem Yields.alt_left (h : a.Yields F ts become cs) : (Rule.alt a b).Yields F ts become cs :=
  fun x R hrest hclear => by rw [outcome_alt, h x R hrest hclear, Option.some_or]

theorem Yields.alt_right (h : b.Yields F ts become cs)
    (ha : ∀ x R, x.rest = ts ++ R → Clear F R → outcome a x = none) :
    (Rule.alt a b).Yields F ts become cs :=
  fun x R hrest hclear => by
    rw [outcome_alt, ha x R hrest hclear, Option.none_or, h x R hrest hclear]

theorem Yields.role (role : Role) (h : a.Yields F ts become cs) :
    (Rule.role role a).Yields F ts become (cs.map (Tree.withRole role)) := by
  intro x R hrest hclear
  rw [outcome_role, h (x.under x.kind []) R hrest hclear, Option.map_some]
  simp [Stage.extend, Stage.past, Stage.under]

/-- A repetition that ends at once. -/
theorem yields_many_nil (ha : ∀ x : Stage, Clear F x.rest → outcome a x = none) :
    (Rule.many a).Yields F [] none [] := by
  intro x R hrest hclear
  obtain ⟨rest, prev, kind, built⟩ := x
  obtain rfl : rest = R := hrest
  exact outcome_many_none (ha _ hclear)

/-- A repetition of one thing and more. -/
theorem Yields.many_cons (ha : a.Yields F ts none cs) (hts : ts ≠ [])
    (hmany : (Rule.many a).Yields G us none ds) (hclear : Clear F us) (hsub : us = [] → F ⊆ G) :
    (Rule.many a).Yields G (ts ++ us) none (cs ++ ds) := by
  intro x R hrest hR
  rw [List.append_assoc] at hrest
  have hread := ha x (us ++ R) hrest (hclear.append fun hnil => hR.mono (hsub hnil))
  have hlt : (us ++ R).length < x.rest.length := by
    have := List.length_pos_iff.2 hts
    rw [hrest]
    simp only [List.length_append]
    omega
  rw [outcome_many_some hread hlt, hmany _ R rfl hR, Stage.past_extend_past, Stage.extend_extend]
  rfl

/-- What is read from some tokens is put under a new node. -/
theorem outcome_node_past (hts : ts ≠ []) (hrest : x.rest = ts ++ R)
    (hread : outcome a (x.under k []) = some (((x.under k []).past ts R).extend become cs)) :
    outcome (.node k a) x =
      some ((x.past ts R).extend none [.node (become.getD k) none (spanOf ts) cs]) := by
  obtain ⟨o, ts, rfl⟩ := List.exists_cons_of_ne_nil hts
  have hlt : R.length < x.rest.length := by
    rw [hrest, List.length_append, List.length_cons]
    omega
  have hlast : (o :: ts).getLastD x.prev = (o :: ts).getLastD default := by
    rw [List.getLastD_cons, List.getLastD_cons]
  rw [outcome_node hrest hread hlt]
  simp only [Stage.extend, Stage.past, Stage.under, List.append_nil, List.reverse_reverse, hlast,
    Option.getD_none, List.reverse_cons, List.reverse_nil, List.nil_append, List.singleton_append]
  rfl

/-- What a rule yields is put under a new node. -/
theorem Yields.node (ha : a.Yields F ts become cs) (hts : ts ≠ []) (k : Kind) :
    (Rule.node k a).Stands F ts (.node (become.getD k) none (spanOf ts) cs) :=
  ⟨hts, rfl, fun x R hrest hclear => outcome_node_past hts hrest (ha (x.under k []) R hrest hclear)⟩

/-- What a rule yields is put under a new node behind the node built last. -/
theorem Yields.wrap (ha : a.Yields F us become cs) (hus : us ≠ []) (k : Kind) (role : Option Role)
    (t : Tree) : (Rule.wrap k role a).Carries F us t
      (.node (become.getD k) none (t.span.upTo (us.getLastD default).span)
        ((role.map t.withRole).getD t :: cs)) := by
  refine ⟨hus, rfl, fun x R before hrest hbuilt hclear => ?_⟩
  have hread := ha (x.under k [(role.map t.withRole).getD t]) R hrest hclear
  have hpos := List.length_pos_iff.2 hus
  have hlt : R.length < x.rest.length := by
    rw [hrest, List.length_append]
    omega
  have hlast : us.getLastD x.prev = us.getLastD default := by
    rw [← List.nil_append us]
    exact getLastD_append_of_ne_nil hus _ _
  rw [outcome_wrap hbuilt hread hlt]
  simp only [Stage.extend, Stage.past, Stage.under, List.reverse_append, List.reverse_reverse,
    List.reverse_singleton, List.singleton_append, hlast]

/-! ## Rules that make up one node -/

theorem Stands.mono (h : r.Stands F ts t) (hsub : F ⊆ G) : r.Stands G ts t :=
  ⟨h.ne_nil, h.span, h.yields.mono hsub⟩

theorem Stands.ref {p : Phrase} (h : (Grammar.rule p).Stands F ts t) : (Rule.ref p).Stands F ts t :=
  ⟨h.ne_nil, h.span, h.yields.ref⟩

theorem Stands.alt_left (h : a.Stands F ts t) : (Rule.alt a b).Stands F ts t :=
  ⟨h.ne_nil, h.span, h.yields.alt_left⟩

theorem Stands.alt_right (h : b.Stands F ts t)
    (ha : ∀ x R, x.rest = ts ++ R → Clear F R → outcome a x = none) :
    (Rule.alt a b).Stands F ts t :=
  ⟨h.ne_nil, h.span, h.yields.alt_right ha⟩

theorem Carries.alt_left (h : a.Carries F us t u) : (Rule.alt a b).Carries F us t u :=
  ⟨h.ne_nil, h.span, fun x R before hrest hbuilt hclear => by
    rw [outcome_alt, h.reads x R before hrest hbuilt hclear, Option.some_or]⟩

theorem Carries.alt_right (h : b.Carries F us t u)
    (ha : ∀ x R, x.rest = us ++ R → outcome a x = none) :
    (Rule.alt a b).Carries F us t u :=
  ⟨h.ne_nil, h.span, fun x R before hrest hbuilt hclear => by
    rw [outcome_alt, ha x R hrest, Option.none_or, h.reads x R before hrest hbuilt hclear]⟩

theorem stands_leaf {test : Terminal} {o : Token} (hacc : test.accepts o = true) (k : Kind) :
    (Grammar.leaf k test).Stands [] [o] (.node k none o.span []) :=
  (yields_token hacc).node (List.cons_ne_nil _ _) k

/-- A rule that is not read where an operand ends may follow it. -/
theorem Stands.seq_nothing (h : a.Stands F ts t) (hsub : F ⊆ G) (hb : b.Yields G [] none []) :
    (Rule.seq a b).Stands G ts t := by
  have hseq := (h.yields.mono hsub).seq hb clear_nil fun _ => List.Subset.refl _
  rw [List.append_nil] at hseq
  exact ⟨h.ne_nil, h.span, hseq⟩

/-- An operand, and what takes it into another node. -/
theorem Stands.seq_carries (h : a.Stands F ts t) (hclear : Clear F us) (hb : b.Carries G us t u) :
    (Rule.seq a b).Stands G (ts ++ us) u := by
  refine ⟨List.append_ne_nil_of_left_ne_nil h.ne_nil us, ?_, fun x R hrest hR => ?_⟩
  · rw [hb.span, h.span, spanOf_append h.ne_nil hb.ne_nil]
  · rw [List.append_assoc] at hrest
    have hfollow : Clear F (us ++ R) := hclear.append fun hnil => absurd hnil hb.ne_nil
    rw [outcome_seq, h.yields x (us ++ R) hrest hfollow, Option.bind_some,
      hb.reads _ R x.built rfl rfl hR, Stage.past_extend_past]
    rfl

/-! ## Repetitions that take a node further -/

theorem Stands.leads (h : a.Stands F ts t) : Leads a w F ts t :=
  ⟨h.ne_nil, h.span, fun x R hrest hclear => by
    rw [outcome_seq, h.yields x R hrest hclear, Option.bind_some]⟩

theorem Leads.carries (h : Leads a w F ts t) (hclear : Clear F us) (hw : w.Carries G us t u) :
    Leads a w G (ts ++ us) u := by
  refine ⟨List.append_ne_nil_of_left_ne_nil h.ne_nil us, ?_, fun x R hrest hR => ?_⟩
  · rw [hw.span, h.span, spanOf_append h.ne_nil hw.ne_nil]
  · rw [List.append_assoc] at hrest
    have hfollow : Clear F (us ++ R) := hclear.append fun hnil => absurd hnil hw.ne_nil
    have hread := hw.reads ((x.past ts (us ++ R)).extend none [t]) R x.built rfl rfl hR
    have hpos := List.length_pos_iff.2 hw.ne_nil
    have hlt : R.length < (us ++ R).length := by
      rw [List.length_append]
      omega
    rw [h.reads x (us ++ R) hrest hfollow, outcome_many_some hread hlt, Stage.past_extend_past]
    rfl

/-- Where the last rule cannot be read, the reading is at its end. -/
theorem Leads.stands (h : Leads a w F ts t) (hsub : F ⊆ G)
    (hw : ∀ x : Stage, Clear G x.rest → outcome w x = none) :
    (Rule.seq a (.many w)).Stands G ts t :=
  ⟨h.ne_nil, h.span, fun x R hrest hclear => by
    rw [h.reads x R hrest (hclear.mono hsub), outcome_many_none (hw _ hclear)]⟩

end Rule

/-! ## Rules that are not read -/

theorem outcome_seq_none (ha : outcome a x = none) : outcome (.seq a b) x = none := by
  rw [outcome_seq, ha, Option.bind_none]

theorem outcome_alt_none (ha : outcome a x = none) (hb : outcome b x = none) :
    outcome (.alt a b) x = none := by
  rw [outcome_alt, ha, hb]
  rfl

theorem outcome_role_none {role : Role} (ha : outcome a (x.under x.kind []) = none) :
    outcome (.role role a) x = none := by
  rw [outcome_role, ha]
  rfl

theorem outcome_token_none_of_clear {test : Terminal} (hclear : Clear F x.rest) (htest : test ∈ F) :
    outcome (.token test) x = none :=
  outcome_token_none fun first hfirst => hclear first hfirst test htest

/-- Nothing that begins with a token is read where none such comes next. -/
theorem outcome_node_none_of_clear {test : Terminal} (hclear : Clear F x.rest) (htest : test ∈ F) :
    outcome (.node k (.seq (.token test) a)) x = none :=
  outcome_node_none (outcome_seq_none (outcome_token_none_of_clear (x := x.under k []) hclear htest))

theorem outcome_wrap_none_of_clear {role : Option Role} {test : Terminal} (hclear : Clear F x.rest)
    (htest : test ∈ F) : outcome (.wrap k role (.seq (.token test) a)) x = none :=
  outcome_wrap_none fun built =>
    outcome_seq_none (outcome_token_none_of_clear (x := x.under k built) hclear htest)

/-- A rule that may be left out is, where it cannot be read. -/
theorem Rule.yields_optional (ha : ∀ x : Stage, Clear F x.rest → outcome a x = none) :
    (Grammar.optional a).Yields F [] none [] :=
  (Rule.yields_empty.mono (List.nil_subset F)).alt_right fun x R hrest hclear =>
    ha x (by rwa [hrest])

end

/-! ## What a rule does with the next token -/

/-- What a rule does in front of a token. -/
inductive Onset where
  /-- It cannot be read. -/
  | refused
  /-- It can be read, and reads nothing. -/
  | skipped
  /-- It may read something. -/
  | undecided
  deriving DecidableEq

/-- What a rule does in front of a token, as far as the token alone tells. -/
def Rule.onset (o : Token) : Rule Phrase → Onset
  | .empty | .become _ => .skipped
  | .token t => if t.accepts o then .undecided else .refused
  | .ahead t => if t.accepts o then .skipped else .refused
  | .notAhead t => if t.accepts o then .refused else .skipped
  | .seq a b => if a.onset o = .skipped then b.onset o else a.onset o
  | .alt a b => if a.onset o = .refused then b.onset o else a.onset o
  | .many a => if a.onset o = .refused then .skipped else .undecided
  | .role _ a => a.onset o
  | .node _ a | .wrap _ _ a | .only _ a => if a.onset o = .refused then .refused else .undecided
  | .ref _ => .undecided

theorem onset_spec {o : Token} (r : Rule Phrase) : ∀ {x : Stage}, x.rest.head? = some o →
    (r.onset o = .refused → outcome r x = none) ∧
      (r.onset o = .skipped → ∃ y, outcome r x = some y ∧ y.rest = x.rest) := by
  induction r with
  | empty => exact fun _ => ⟨by simp [Rule.onset], fun _ => ⟨_, outcome_empty _, rfl⟩⟩
  | become k => exact fun _ => ⟨by simp [Rule.onset], fun _ => ⟨_, outcome_become k _, rfl⟩⟩
  | token t =>
    intro x hx
    refine ⟨fun h => outcome_token_none ?_, fun h => ?_⟩
    · simpa [Rule.onset, hx] using h
    · simp only [Rule.onset] at h
      split at h <;> simp at h
  | ahead t =>
    intro x hx
    rw [Rule.onset, outcome_ahead, Stage.look, hx]
    cases hacc : t.accepts o <;> simp [hacc]
  | notAhead t =>
    intro x hx
    rw [Rule.onset, outcome_notAhead, Stage.look, hx]
    cases hacc : t.accepts o <;> simp [hacc]
  | seq a b iha ihb =>
    intro x hx
    rw [Rule.onset, outcome_seq]
    by_cases ha : a.onset o = .skipped
    · obtain ⟨y, hy, hrest⟩ := (iha hx).2 ha
      rw [if_pos ha, hy, Option.bind_some, ← hrest]
      exact ihb (hrest ▸ hx)
    · rw [if_neg ha]
      exact ⟨fun h => by rw [(iha hx).1 h, Option.bind_none], fun h => absurd h ha⟩
  | alt a b iha ihb =>
    intro x hx
    rw [Rule.onset, outcome_alt]
    by_cases ha : a.onset o = .refused
    · rw [if_pos ha, (iha hx).1 ha, Option.none_or]
      exact ihb hx
    · rw [if_neg ha]
      refine ⟨fun h => absurd h ha, fun h => ?_⟩
      obtain ⟨y, hy, hrest⟩ := (iha hx).2 h
      exact ⟨y, by rw [hy, Option.some_or], hrest⟩
  | many a iha =>
    intro x hx
    rw [Rule.onset]
    split
    · next ha => exact ⟨by simp, fun _ => ⟨x, outcome_many_none ((iha hx).1 ha), rfl⟩⟩
    · simp
  | ref => exact fun _ => ⟨by simp [Rule.onset], by simp [Rule.onset]⟩
  | node k a iha =>
    intro x hx
    rw [Rule.onset]
    split
    · next ha => exact ⟨fun _ => outcome_node_none ((iha (x := x.under k []) hx).1 ha), by simp⟩
    · simp
  | wrap k r a iha =>
    intro x hx
    rw [Rule.onset]
    split
    · next ha => exact ⟨fun _ => outcome_wrap_none fun built =>
        (iha (x := x.under k built) hx).1 ha, by simp⟩
    · simp
  | role r a iha =>
    intro x hx
    rw [Rule.onset, outcome_role]
    obtain ⟨hrefused, hskipped⟩ := iha (x := x.under x.kind []) hx
    refine ⟨fun h => by rw [hrefused h, Option.map_none], fun h => ?_⟩
    obtain ⟨y, hy, hrest⟩ := hskipped h
    exact ⟨{ y with built := y.built.map (Tree.withRole r) ++ x.built }, by rw [hy]; rfl, hrest⟩
  | only ks a iha =>
    intro x hx
    rw [Rule.onset, outcome_only]
    split
    · next ha =>
      exact ⟨fun _ => by rw [(iha (x := x.under x.kind []) hx).1 ha, Option.bind_none], by simp⟩
    · simp

/-- A rule is not read in front of a token that it refuses. -/
theorem outcome_none_of_onset {x : Stage} {o : Token} {R : List Token} {r : Rule Phrase}
    (hrest : x.rest = o :: R) (h : r.onset o = .refused) : outcome r x = none :=
  (onset_spec r (by rw [hrest]; rfl)).1 h

/-- Of several rules, the first one that can be read. -/
theorem outcome_alts {x y : Stage} {r : Rule Phrase} (before behind : List (Rule Phrase))
    (hbefore : ∀ a ∈ before, outcome a x = none) (hr : outcome r x = some y) :
    outcome (Grammar.alts (before ++ r :: behind)) x = some y := by
  induction before with
  | nil =>
    cases behind with
    | nil => exact hr
    | cons b behind =>
      show outcome (.alt r _) x = _
      rw [outcome_alt, hr, Option.some_or]
  | cons a before ih =>
    have hne : ∃ b rest, before ++ r :: behind = b :: rest :=
      List.exists_cons_of_ne_nil (by simp)
    obtain ⟨b, rest, hrest⟩ := hne
    have hlater := ih fun c hc => hbefore c (List.mem_cons_of_mem a hc)
    rw [hrest] at hlater
    rw [List.cons_append, hrest]
    show outcome (.alt a _) x = _
    rw [outcome_alt, hbefore a (List.mem_cons_self ..), Option.none_or, hlater]

/-- Rules that all refuse the next token. -/
theorem outcome_none_of_all_refused {x : Stage} {o : Token} {R : List Token}
    {rules : List (Rule Phrase)} (hrest : x.rest = o :: R)
    (h : (rules.all fun a => a.onset o == .refused) = true) : ∀ a ∈ rules, outcome a x = none :=
  fun a ha => outcome_none_of_onset hrest (beq_iff_eq.1 (List.all_eq_true.1 h a ha))

end Redeploy.Syntax
