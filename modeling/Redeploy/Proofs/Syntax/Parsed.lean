import Redeploy.Proofs.Syntax.Built
import Redeploy.Syntax.Parse

set_option autoImplicit false

/-! # Scripts that can be read

What is known of the tree of a script. Its tokens are those of the script, with line breaks added where
the script has been mended (`Mended`); the statements are what the grammar reads from all of them
(`exists_reads_of_parse`). So the tree is nested (`nested_of_parse`), covers the script, and every
node begins and ends where the script can be cut (`isCut_of_parse`). -/

namespace Redeploy.Syntax

/-! ## Mending -/

/-- A line break that is not written, right behind a token that is. -/
def IsAddedBreak (ps : List Placed) (p : Placed) : Prop :=
  p.lexeme.kind = .token .newline ∧ p.span.startByte = p.span.endByte ∧
    ∃ q ∈ ps, ∃ kind, q.lexeme.kind = .token kind ∧ q.lexeme.text ≠ [] ∧
      q.span.endByte = p.span.startByte

theorem IsAddedBreak.mono {ps qs : List Placed} {p : Placed} (h : IsAddedBreak ps p)
    (hsub : ∀ q ∈ ps, q ∈ qs) : IsAddedBreak qs p := by
  obtain ⟨hkind, hspan, q, hq, hrest⟩ := h
  exact ⟨hkind, hspan, q, hsub q hq, hrest⟩

/-- Lexemes that make up a script, with line breaks that are not written in it added or not. -/
structure Mended (source : Text) (ps : List Placed) : Prop where
  /-- The lexemes cover the script. -/
  cover : Cover 0 ps source
  /-- Those that are written are the lexemes of the script. -/
  written : ps.filter (fun p => p.lexeme.text != []) = placedLexemes source
  /-- All others are line breaks, each right behind a token that is written. -/
  added : ∀ p ∈ ps, p.lexeme.text = [] → IsAddedBreak ps p

theorem text_ne_nil_of_mem_scanWith {steps : Nat} {modes : List Mode} {t : Text} {l : Lexeme}
    (h : l ∈ scanWith steps modes t) : l.text ≠ [] := by
  induction steps generalizing modes t with
  | zero => simp [scanWith] at h
  | succ steps ih =>
    cases t with
    | nil => simp [scanWith] at h
    | cons c t =>
      simp only [scanWith, List.mem_cons] at h
      rcases h with rfl | h
      · simp
      · exact ih h

theorem lexeme_mem_of_mem_placeFrom {pos : Position} {ls : List Lexeme} {p : Placed}
    (h : p ∈ placeFrom pos ls) : p.lexeme ∈ ls := by
  induction ls generalizing pos with
  | nil => simp [placeFrom] at h
  | cons l ls ih =>
    rcases List.mem_cons.1 h with rfl | h
    · exact List.mem_cons_self ..
    · exact List.mem_cons_of_mem _ (ih h)

theorem text_ne_nil_of_mem_placedLexemes {source : Text} {p : Placed}
    (h : p ∈ placedLexemes source) : p.lexeme.text ≠ [] :=
  text_ne_nil_of_mem_scanWith (lexeme_mem_of_mem_placeFrom h)

theorem mended_placedLexemes (source : Text) : Mended source (placedLexemes source) where
  cover := cover_placedLexemes source
  written := List.filter_eq_self.2 fun p hp => by
    simpa using text_ne_nil_of_mem_placedLexemes hp
  added p hp h := absurd h (text_ne_nil_of_mem_placedLexemes hp)

/-- What is no line break is written. -/
theorem Mended.text_ne_nil {source : Text} {ps : List Placed} (h : Mended source ps) {p : Placed}
    (hp : p ∈ ps) (hkind : p.lexeme.kind ≠ .token .newline) : p.lexeme.text ≠ [] :=
  fun hnil => hkind (h.added p hp hnil).1

theorem Mended.scan_eq {source : Text} {ps : List Placed} (h : Mended source ps) :
    scan source = (ps.filter fun p => p.lexeme.text != []).map Placed.lexeme := by
  rw [h.written]
  exact (map_lexeme_placeFrom .start (scan source)).symm

theorem cover_withBehind {t : Token} {kind : TokenKind} {n : Nat} {ps : List Placed} {text : Text}
    (h : Cover n ps text) : Cover n (withBehind t kind [] ps) text := by
  induction ps generalizing n text with
  | nil => exact h
  | cons p ps ih =>
    obtain ⟨hstart, hend, rest, rfl, hrest⟩ := h
    have htail := ih hrest
    unfold withBehind at *
    rw [List.flatMap_cons]
    split
    · next hp =>
      -- what is added has no extent, and stands where the lexeme ends
      simp only [Bool.and_eq_true, beq_iff_eq] at hp
      have hplace : t.span.endByte = p.span.endByte := by rw [hp.2]
      refine ⟨hstart, hend, rest, rfl, hplace, ?_, rest, rfl, ?_⟩
      · show t.span.endByte = p.span.endByte + 0
        omega
      · show Cover t.span.endByte _ rest
        rwa [hplace]
    · exact ⟨hstart, hend, rest, rfl, htail⟩

theorem filter_withBehind (t : Token) (kind : TokenKind) (ps : List Placed) :
    (withBehind t kind [] ps).filter (fun p => p.lexeme.text != []) =
      ps.filter fun p => p.lexeme.text != [] := by
  induction ps with
  | nil => rfl
  | cons p ps ih =>
    unfold withBehind at *
    rw [List.flatMap_cons, List.filter_append, ih]
    split <;> by_cases hp : p.lexeme.text = [] <;> simp [hp]

theorem mem_withBehind_of_mem {t : Token} {kind : TokenKind} {ps : List Placed} {p : Placed}
    (h : p ∈ ps) : p ∈ withBehind t kind [] ps := by
  refine List.mem_flatMap.2 ⟨p, h, ?_⟩
  split <;> simp

theorem Mended.withBehind {source : Text} {ps : List Placed} (h : Mended source ps) {t : Token}
    (ht : t.isWritten = true) : Mended source (withBehind t .newline [] ps) where
  cover := cover_withBehind h.cover
  written := by rw [filter_withBehind, h.written]
  added p hp hnil := by
    have hkeep : ∀ q ∈ ps, q.lexeme.text = [] →
        IsAddedBreak (Syntax.withBehind t .newline [] ps) q := fun q hq hnil =>
      (h.added q hq hnil).mono fun _ => mem_withBehind_of_mem
    obtain ⟨q, hq, hp⟩ := List.mem_flatMap.1 hp
    split at hp
    · next hcond =>
      simp only [List.mem_cons, List.not_mem_nil, or_false] at hp
      rcases hp with rfl | rfl
      · exact hkeep p hq hnil
      · -- the token that the line break is put behind is no line break
        simp only [Bool.and_eq_true, beq_iff_eq] at hcond
        refine ⟨rfl, rfl, q, mem_withBehind_of_mem hq, t.kind, hcond.1, ?_, ?_⟩
        · intro hqnil
          have hkind := (h.added q hq hqnil).1
          rw [hcond.1, LexemeKind.token.injEq] at hkind
          simp [Token.isWritten, hkind] at ht
        · show q.span.endByte = t.span.endByte
          rw [hcond.2]
    · obtain rfl := List.mem_singleton.1 hp
      exact hkeep p hq hnil

namespace Mending

theorem mem_of_cheapest {ms : List Mending} {m : Mending} (h : cheapest ms = some m) : m ∈ ms := by
  induction ms with
  | nil => simp [cheapest] at h
  | cons m' ms ih =>
    rw [cheapest] at h
    split at h
    · next best hbest =>
      split at h
      · rw [Option.some.injEq] at h
        exact List.mem_cons.2 (.inl h.symm)
      · rw [Option.some.injEq] at h
        exact List.mem_cons_of_mem _ (ih (h ▸ hbest))
    · rw [Option.some.injEq] at h
      exact List.mem_cons.2 (.inl h.symm)

theorem mem_of_choose {ms : List Mending} {m : Mending} (h : choose ms = some m) : m ∈ ms := by
  rcases Option.or_eq_some_iff.1 h with h | ⟨-, h⟩
  · exact mem_of_cheapest h |> List.mem_filter.1 |>.1
  · exact mem_of_cheapest h |> List.mem_filter.1 |>.1

/-- A mending that tells no fault adds a line break. -/
theorem exists_of_fault_none {ps : List Placed} {ts : List Token} {n : Nat} {m : Mending}
    (h : m ∈ all ps ts n) (hfault : m.fault = none) :
    ∃ t, t.isWritten = true ∧ m.lexemes = withBehind t .newline [] ps := by
  have hdeletion : ∀ k, m ∉ deletion ps ts k := by
    intro k hm
    unfold deletion at hm
    split at hm
    · split at hm
      · obtain rfl := List.mem_singleton.1 hm
        simp at hfault
      · simp at hm
    · simp at hm
  unfold all at h
  rcases List.mem_append.1 h with h | h
  · rcases List.mem_append.1 h with h | h
    · unfold insertions at h
      split at h
      · next t ht =>
        simp only [List.mem_cons, List.not_mem_nil, or_false] at h
        rcases h with rfl | rfl
        · exact ⟨t, List.find?_some ht, rfl⟩
        · simp at hfault
      · simp at h
    · exact absurd h (hdeletion n)
  · split at h
    · simp at h
    · exact absurd h (hdeletion (n - 1))

end Mending

theorem exists_of_statementsOf {source : Text} {steps : Nat} {ps : List Placed} {ts : List Tree}
    (h : Mended source ps) (hts : statementsOf steps ps = .ok ts) :
    ∃ qs, Mended source qs ∧ readTokens (tokensOf qs) = .ok ts := by
  induction steps generalizing ps with
  | zero => simp [statementsOf] at hts
  | succ steps ih =>
    simp only [statementsOf] at hts
    split at hts
    · next statements hread =>
      rw [Except.ok.injEq] at hts
      exact ⟨ps, h, hts ▸ hread⟩
    · split at hts
      · simp at hts
      · next m hm =>
        split at hts
        · simp at hts
        · next hfault =>
          obtain ⟨t, ht, hm⟩ := Mending.exists_of_fault_none (Mending.mem_of_choose hm) hfault
          rw [hm] at hts
          exact ih (h.withBehind ht) hts

/-! ## The tree of a script -/

/-- Whether a rule is anything but a test for what is no mark of the language. -/
def Rule.refusesBad : Rule Phrase → Bool
  | .token (.kind .bad) => false
  | _ => true

/-- The grammar reads nothing that is no mark of the language. -/
theorem Reads.kind_ne_bad {rule : Rule Phrase} {us : List Use} {f f' : Frame}
    (h : Reads Grammar.rule rule us f f') (hrule : rule.every Rule.refusesBad = true) :
    ∀ u ∈ us, u.token.kind ≠ .bad := by
  refine h.forall_uses (Q := fun u => u.token.kind ≠ .bad) Rule.refusesBad ?_ ?_ hrule
  · intro t token hp hacc hbad
    have hkind : token.kind = .bad := hbad
    cases t with
    | word ws => simp [Terminal.accepts, hkind] at hacc
    | wordExcept ws => simp [Terminal.accepts, hkind] at hacc
    | symbol ss => simp [Terminal.accepts, hkind] at hacc
    | kind k =>
      simp only [Terminal.accepts, hkind, beq_iff_eq] at hacc
      subst hacc
      simp [Rule.refusesBad] at hp
  · intro n
    cases n <;> rfl

/-- The statements that tokens make up are what the grammar reads from all of them. -/
theorem exists_reads_of_readTokens {ts : List Token} {statements : List Tree}
    (h : readTokens ts = .ok statements) : ∃ us k, Use.tokens us = ts ∧
      Reads Grammar.rule (.many (.ref .statement)) us ⟨.module, []⟩ ⟨k, statements.reverse⟩ := by
  unfold readTokens at h
  simp only at h
  split at h
  · next s hs =>
    split at h
    · next hrest =>
      rw [Except.ok.injEq] at h
      obtain ⟨us, hus, hcons⟩ := reads_of_read hs
      refine ⟨us, s.kind, ?_, ?_⟩
      · have := hcons.rest
        rw [List.isEmpty_iff.1 hrest, List.append_nil] at this
        exact this.symm
      · rw [← h, List.reverse_reverse]
        exact hus
    · simp at h
  · simp at h

theorem exists_statements_of_parse {source : Text} {root : Tree} (h : parse source = .ok root) :
    ∃ ps, Mended source ps ∧ readTokens (tokensOf ps) = .ok root.children ∧ root.kind = .module ∧
      root.span.startByte = 0 ∧ root.span.endByte = source.size := by
  unfold parse at h
  cases hts : statementsOf ((placedLexemes source).length + 1) (placedLexemes source) with
  | error fault => simp [hts, Except.map] at h
  | ok ts =>
    simp only [hts, Except.map, Except.ok.injEq] at h
    subst h
    obtain ⟨ps, hps, hread⟩ := exists_of_statementsOf (mended_placedLexemes source) hts
    refine ⟨ps, hps, hread, rfl, rfl, ?_⟩
    show (Position.start.afterText source).byte = source.size
    rw [Position.afterText_byte]
    exact Nat.zero_add _

/-- The tree of a script: over lexemes that make it up, the statements that the grammar reads. -/
theorem exists_reads_of_parse {source : Text} {root : Tree} (h : parse source = .ok root) :
    ∃ ps us k, Mended source ps ∧ Use.tokens us = tokensOf ps ∧
      Reads Grammar.rule (.many (.ref .statement)) us ⟨.module, []⟩ ⟨k, root.children.reverse⟩ := by
  obtain ⟨ps, hps, hread, -⟩ := exists_statements_of_parse h
  obtain ⟨us, k, hus, hreads⟩ := exists_reads_of_readTokens hread
  exact ⟨ps, us, k, hps, hus, hreads⟩

theorem startByte_of_parse {source : Text} {root : Tree} (h : parse source = .ok root) :
    root.span.startByte = 0 := by
  obtain ⟨_, _, _, _, hstart, -⟩ := exists_statements_of_parse h
  exact hstart

theorem endByte_of_parse {source : Text} {root : Tree} (h : parse source = .ok root) :
    root.span.endByte = source.size := by
  obtain ⟨_, _, _, _, -, hend⟩ := exists_statements_of_parse h
  exact hend

theorem kind_of_parse {source : Text} {root : Tree} (h : parse source = .ok root) :
    root.kind = .module := by
  obtain ⟨_, _, _, hkind, -⟩ := exists_statements_of_parse h
  exact hkind

/-- A node of a script that is not the script itself is built by one of its statements. -/
theorem mem_nodesAll_of_parse {source : Text} {root x : Tree} (h : parse source = .ok root)
    (hx : x ∈ root.nodes) (hkind : x.kind ≠ .module) : x ∈ Tree.nodesAll root.children.reverse := by
  rcases Tree.mem_nodes.1 hx with rfl | ⟨c, hc, hx⟩
  · exact absurd (kind_of_parse h) hkind
  · exact Tree.mem_nodesAll.2 ⟨c, List.mem_reverse.2 hc, hx⟩

theorem Mended.inOrder {source : Text} {ps : List Placed} (h : Mended source ps) :
    Token.InOrder 0 (tokensOf ps) :=
  inOrder_layout ps .start 0 source h.cover (Nat.le_refl 0)

theorem Mended.isCut {source : Text} {ps : List Placed} (h : Mended source ps) :
    ∀ t ∈ tokensOf ps, source.IsCut t.span.startByte ∧ source.IsCut t.span.endByte :=
  forall_bounds_layout (by simp [LineState.start]) fun _ hp _ _ => h.cover.isCut hp

/-- Every node of a script begins and ends where the script can be cut. -/
theorem isCut_of_parse {source : Text} {root : Tree} (h : parse source = .ok root) :
    ∀ x ∈ root.nodes, source.IsCut x.span.startByte ∧ source.IsCut x.span.endByte := by
  obtain ⟨ps, us, k, hps, hus, hreads⟩ := exists_reads_of_parse h
  intro x hx
  rcases Tree.mem_nodes.1 hx with rfl | ⟨c, hc, hx⟩
  · rw [startByte_of_parse h, endByte_of_parse h]
    exact ⟨source.isCut_zero, source.isCut_size⟩
  · refine hreads.forall_bounds ?_ (by simp) x (Tree.mem_nodesAll.2 ⟨c, List.mem_reverse.2 hc, hx⟩)
    intro u hu
    exact hps.isCut u.token (hus ▸ List.mem_map_of_mem hu)

/-- The tree of a script is nested. -/
theorem nested_of_parse {source : Text} {root : Tree} (h : parse source = .ok root) :
    root.Nested := by
  obtain ⟨ps, us, k, hps, hus, hreads⟩ := exists_reads_of_parse h
  have horder : Token.InOrder 0 (Use.tokens us) := by
    rw [hus]
    exact hps.inOrder
  have hend : Token.endOf 0 (Use.tokens us) ≤ source.size := by
    rw [hus]
    by_cases hne : tokensOf ps = []
    · rw [hne]
      exact Nat.zero_le _
    · rw [Token.endOf_eq_getLast 0 _ hne]
      exact (hps.isCut _ (List.getLast_mem hne)).2.le_size
  have hstacked : Stacked 0 root.children.reverse source.size :=
    (hreads.stacked horder (Nat.le_refl 0)).mono hend
  rw [Tree.nested_iff, startByte_of_parse h, endByte_of_parse h, ← root.children.reverse_reverse]
  exact ⟨hstacked.inOrder_reverse, fun t ht => hstacked.nested_mem t (List.mem_reverse.1 ht)⟩

/-- The statements of a script are in order. -/
theorem inOrder_of_parse {source : Text} {root : Tree} (h : parse source = .ok root) :
    Tree.InOrder 0 source.size root.children := by
  have := (Tree.nested_iff.1 (nested_of_parse h)).1
  rwa [startByte_of_parse h, endByte_of_parse h] at this

end Redeploy.Syntax
