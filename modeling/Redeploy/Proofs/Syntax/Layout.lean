import Redeploy.Proofs.Syntax.Place

set_option autoImplicit false

/-! # From tokens back to lexemes

Where a token of the layout comes from: which lexeme it is, what stands before it, and what the layout
goes on with behind it (`exists_of_layout_eq`). -/

namespace Redeploy.Syntax

namespace Token

/-- How many brackets are open behind some tokens. -/
def depthBehind (depth : Nat) (ts : List Token) : Nat :=
  ts.foldl (fun n t => if t.opens then n + 1 else if t.closes then n - 1 else n) depth

theorem depthBehind_append (depth : Nat) (ts us : List Token) :
    depthBehind depth (ts ++ us) = depthBehind (depthBehind depth ts) us :=
  List.foldl_append

theorem depthBehind_marks {ms : List Token} (h : ∀ m ∈ ms, m.IsMark) (depth : Nat) :
    depthBehind depth ms = depth := by
  induction ms with
  | nil => rfl
  | cons m ms ih =>
    obtain ⟨kind, text, span⟩ := m
    have hkind : kind = .newline ∨ kind = .indent ∨ kind = .dedent := by
      simpa [isLayout, or_assoc] using (h _ (List.mem_cons_self ..)).1
    have hrest := ih fun m' hm' => h m' (List.mem_cons_of_mem _ hm')
    rcases hkind with rfl | rfl | rfl <;> exact hrest

end Token

/-- The token that a lexeme is, if it is one of a kind. -/
def Placed.token (p : Placed) (kind : TokenKind) : Token :=
  ⟨kind, p.lexeme.text, p.span⟩

/-- A token that is no mark, in a list of marks, a token and more. -/
theorem append_cons_eq_append_cons {marks X rest R : List Token} {t x : Token} (hx : x ∉ marks)
    (h : marks ++ t :: rest = X ++ x :: R) :
    (X = marks ∧ t = x ∧ rest = R) ∨ ∃ X', X = marks ++ t :: X' ∧ rest = X' ++ x :: R := by
  rcases List.append_eq_append_iff.1 h with ⟨as, rfl, h'⟩ | ⟨bs, rfl, h'⟩
  · cases as with
    | nil =>
      obtain ⟨rfl, rfl⟩ := List.cons.inj h'
      exact .inl ⟨List.append_nil _, rfl, rfl⟩
    | cons a as =>
      obtain ⟨rfl, rfl⟩ := List.cons.inj h'
      exact .inr ⟨as, rfl, rfl⟩
  · cases bs with
    | nil =>
      obtain ⟨rfl, rfl⟩ := List.cons.inj h'
      exact .inl ⟨(List.append_nil _).symm, rfl, rfl⟩
    | cons b bs =>
      obtain ⟨rfl, -⟩ := List.cons.inj h'
      simp at hx

/-- What the layout has come to at a token: the lexemes before it and behind it, the tokens behind it,
    and the state in which those are laid out. -/
structure LaidTo (ps : List Placed) (depth : Nat) (X : List Token) (x : Token) (R : List Token)
    (A : List Placed) (p : Placed) (B : List Placed) (s : LineState) : Prop where
  /-- The lexemes. -/
  lexemes : ps = A ++ p :: B
  /-- The token is a lexeme. -/
  kind : p.lexeme.kind = .token x.kind
  token : p.token x.kind = x
  /-- What the layout goes on with. -/
  rest : layout s B = R
  prev : s.prev = some x
  indentation : s.indentation = none
  depth : s.depth = Token.depthBehind depth (X ++ [x])
  /-- A lexeme right before the token that is a token is the token before it. -/
  before : ∀ A' q kind, A = A' ++ [q] → q.lexeme.kind = .token kind → ∃ X', X = X' ++ [q.token kind]

namespace LineState

theorem depth_beforeToken (s : LineState) : s.beforeToken.2.depth = s.depth := by
  unfold beforeToken
  split <;> rfl

theorem indentation_beforeToken (s : LineState) : s.beforeToken.2.indentation = none := by
  unfold beforeToken
  split <;> rfl

theorem beforeToken_of_none {s : LineState} (h : s.indentation = none) : s.beforeToken.1 = [] := by
  unfold beforeToken
  rw [h]
  split
  · next heq => exact absurd heq (by simp)
  · rfl

theorem depth_afterSilent (s : LineState) (l : Lexeme) : (s.afterSilent l).depth = s.depth := by
  unfold afterSilent
  split
  · split <;> rfl
  · rfl
  · rfl

end LineState

theorem exists_concat_of_cons_eq {q q' : Placed} {A A' : List Placed} (h : q :: A = A' ++ [q']) :
    (A = [] ∧ q' = q) ∨ ∃ A'', A = A'' ++ [q'] := by
  cases A' with
  | nil =>
    obtain ⟨rfl, rfl⟩ := List.cons.inj h
    exact .inl ⟨rfl, rfl⟩
  | cons a A' => exact .inr ⟨A', (List.cons.inj h).2⟩

/-- A token of the layout that is no mark is one of the lexemes. -/
theorem exists_of_layout_eq {ps : List Placed} {s : LineState} {X R : List Token} {x : Token}
    (h : layout s ps = X ++ x :: R) (hx : x.isLayout = false) :
    ∃ A p B s', LaidTo ps s.depth X x R A p B s' ∧ (A = [] → s.indentation = none → X = []) := by
  have hmarks : ∀ {ms : List Token}, (∀ m ∈ ms, m.IsMark) → x ∉ ms := fun hms hmem => by
    rw [(hms x hmem).1] at hx
    simp at hx
  induction ps generalizing s X with
  | nil =>
    unfold layout at h
    split at h
    · next prev _ =>
      have hmem : x ∈ (LineState.lineEnd prev s.blocks 0).1 := by simp [h]
      exact absurd hmem (hmarks fun m hm => (LineState.isMark_of_mem_lineEnd hm).1)
    · simp at h
  | cons q ps ih =>
    unfold layout at h
    split at h
    · next kind hkind =>
      have hbefore : ∀ m ∈ s.beforeToken.1, m.IsMark := fun m hm => by
        obtain ⟨-, -, hmark, -⟩ := LineState.mem_beforeToken hm
        exact hmark
      have hdepth (X : List Token) : Token.depthBehind s.depth (s.beforeToken.1 ++ q.token kind :: X) =
          Token.depthBehind (s.beforeToken.2.afterToken (q.token kind)).depth X := by
        rw [Token.depthBehind_append, Token.depthBehind_marks hbefore, ← s.depth_beforeToken]
        rfl
      rcases append_cons_eq_append_cons (hmarks hbefore) h with ⟨rfl, rfl, hrest⟩ | ⟨X', rfl, hrest⟩
      · exact ⟨[], q, ps, _, ⟨rfl, hkind, rfl, hrest, rfl, s.indentation_beforeToken,
          (hdepth []).symm, by simp⟩, fun _ => LineState.beforeToken_of_none⟩
      · obtain ⟨A, p, B, s', hlaid, hfirst⟩ := ih hrest
        refine ⟨q :: A, p, B, s', ⟨by rw [hlaid.lexemes, List.cons_append], hlaid.kind, hlaid.token,
          hlaid.rest, hlaid.prev, hlaid.indentation, ?_, ?_⟩, by simp⟩
        · rw [hlaid.depth, List.append_assoc]
          exact (hdepth (X' ++ [x])).symm
        · intro A' q' kind' hA hkind'
          rcases exists_concat_of_cons_eq hA with ⟨rfl, rfl⟩ | ⟨A'', rfl⟩
          · obtain rfl : kind = kind' := by simpa [hkind] using hkind'
            exact ⟨s.beforeToken.1, by rw [hfirst rfl s.indentation_beforeToken]; rfl⟩
          · obtain ⟨X'', rfl⟩ := hlaid.before A'' q' kind' rfl hkind'
            exact ⟨s.beforeToken.1 ++ q.token kind :: X'', by
              rw [List.append_assoc, List.cons_append]; rfl⟩
    · next hsilent =>
      obtain ⟨A, p, B, s', hlaid, -⟩ := ih h
      refine ⟨q :: A, p, B, s', ⟨by rw [hlaid.lexemes, List.cons_append], hlaid.kind, hlaid.token,
        hlaid.rest, hlaid.prev, hlaid.indentation, s.depth_afterSilent q.lexeme ▸ hlaid.depth, ?_⟩,
        by simp⟩
      intro A' q' kind' hA hkind'
      rcases exists_concat_of_cons_eq hA with ⟨-, rfl⟩ | ⟨A'', rfl⟩
      · exact absurd hkind' (hsilent kind')
      · exact hlaid.before A'' q' kind' rfl hkind'

/-! ## Between two tokens -/

/-- Behind a token that does not lack an operand, a line that has begun means a layout mark. -/
theorem LineState.exists_mark_of_beforeToken {s : LineState} {x : Token} (hprev : s.prev = some x)
    (hx : x.lacksOperand = false) (h : s.indentation ≠ none) :
    ∃ m ms, s.beforeToken.1 = m :: ms ∧ m.IsMark := by
  obtain ⟨n, hn⟩ := Option.ne_none_iff_exists'.1 h
  have hmarks : s.beforeToken.1 = (lineEnd x s.blocks n).1 := by
    unfold beforeToken
    rw [hprev, hn]
  cases hms : s.beforeToken.1 with
  | nil =>
    rw [hmarks, lineEnd, hx] at hms
    simp only [Bool.false_eq_true, if_false] at hms
    split at hms <;> simp at hms
  | cons m ms =>
    refine ⟨m, ms, rfl, ?_⟩
    obtain ⟨-, -, hmark, -⟩ := mem_beforeToken (s := s) (m := m) (by simp [hms])
    exact hmark

theorem LineState.indentation_afterSilent {s : LineState} {l : Lexeme}
    (h : s.indentation ≠ none ∨ (l.kind = .lineBreak ∧ s.depth = 0)) :
    (s.afterSilent l).indentation ≠ none := by
  unfold afterSilent
  split
  · next hkind =>
    by_cases hdepth : s.depth = 0
    · simp [hdepth]
    · rcases h with h | ⟨-, h⟩
      · simpa [hdepth] using h
      · exact absurd h hdepth
  · next hkind =>
    rcases h with h | ⟨h, -⟩
    · simpa using h
    · simp [hkind] at h
  · next hbreak _ =>
    rcases h with h | ⟨h, -⟩
    · exact h
    · exact absurd h hbreak

/-- Between a token and the next one, where that is no layout mark, there are no further tokens. There
    is no line break either, if no brackets are open and the first token does not lack an operand. -/
theorem exists_of_layout_eq_cons {ps : List Placed} {s : LineState} {x y : Token} {R : List Token}
    (h : layout s ps = y :: R) (hprev : s.prev = some x) (hy : y.isLayout = false) :
    ∃ G q B, ps = G ++ q :: B ∧ q.lexeme.kind = .token y.kind ∧ q.token y.kind = y ∧
      (∀ g ∈ G, ∀ kind, g.lexeme.kind ≠ .token kind) ∧ (s.depth = 0 → x.lacksOperand = false →
        s.indentation = none ∧ ∀ g ∈ G, g.lexeme.kind ≠ .lineBreak) := by
  induction ps generalizing s with
  | nil =>
    unfold layout at h
    rw [hprev] at h
    have hmem : y ∈ (LineState.lineEnd x s.blocks 0).1 := by
      simp only at h
      simp [h]
    rw [(LineState.isMark_of_mem_lineEnd hmem).1.1] at hy
    simp at hy
  | cons q ps ih =>
    unfold layout at h
    split at h
    · next kind hkind =>
      have h' : s.beforeToken.1 ++ q.token kind ::
        layout (s.beforeToken.2.afterToken (q.token kind)) ps = y :: R := h
      cases hms : s.beforeToken.1 with
      | nil =>
        rw [hms] at h'
        obtain ⟨rfl, -⟩ := List.cons.inj h'
        refine ⟨[], q, ps, rfl, hkind, rfl, by simp, fun _ hx => ⟨?_, by simp⟩⟩
        by_cases hnone : s.indentation = none
        · exact hnone
        · obtain ⟨m, ms, hms', -⟩ := LineState.exists_mark_of_beforeToken hprev hx hnone
          simp [hms] at hms'
      | cons m ms =>
        -- a mark would come first
        rw [hms] at h'
        obtain ⟨rfl, -⟩ := List.cons.inj h'
        obtain ⟨-, -, hmark, -⟩ := LineState.mem_beforeToken (s := s) (m := m) (by simp [hms])
        rw [hmark.1] at hy
        simp at hy
    · next hsilent =>
      obtain ⟨G, r, B, rfl, hkind, hr, hG, hbreak⟩ := ih h (by rw [s.prev_afterSilent, hprev])
      refine ⟨q :: G, r, B, rfl, hkind, hr, List.forall_mem_cons.2 ⟨hsilent, hG⟩, fun hdepth hx => ?_⟩
      obtain ⟨hnone, hG'⟩ := hbreak (by rw [s.depth_afterSilent, hdepth]) hx
      refine ⟨?_, List.forall_mem_cons.2 ⟨?_, hG'⟩⟩
      · by_cases hs : s.indentation = none
        · exact hs
        · exact absurd hnone (LineState.indentation_afterSilent (.inl hs))
      · intro hq
        exact LineState.indentation_afterSilent (.inr ⟨hq, hdepth⟩) hnone

/-- The lexemes of two tokens that follow each other: there are no further tokens between them. -/
theorem exists_of_layout_eq_pair {ps : List Placed} {s : LineState} {X R : List Token} {x y : Token}
    (h : layout s ps = X ++ x :: y :: R) (hx : x.isLayout = false) (hy : y.isLayout = false) :
    ∃ A p G q B, ps = A ++ p :: (G ++ q :: B) ∧ p.lexeme.kind = .token x.kind ∧ p.token x.kind = x ∧
      q.lexeme.kind = .token y.kind ∧ q.token y.kind = y ∧ ∀ g ∈ G, ∀ kind, g.lexeme.kind ≠ .token kind := by
  obtain ⟨A, p, B, s', hlaid, -⟩ := exists_of_layout_eq h hx
  obtain ⟨G, q, B', rfl, hkind, hq, hG, -⟩ := exists_of_layout_eq_cons hlaid.rest hlaid.prev hy
  exact ⟨A, p, G, q, B', hlaid.lexemes, hlaid.kind, hlaid.token, hkind, hq, hG⟩

/-- A layout mark right in front of a token is there since the layout began, is one of the lexemes, or
    stands in front of a line break that is in front of the token. -/
theorem exists_of_layout_mark {ps : List Placed} {s : LineState} {n : Nat} {t : Text}
    {X R : List Token} {z y : Token} (hcover : Cover n ps t) (hprev : s.prevEnd ≤ n)
    (h : layout s ps = X ++ z :: y :: R) (hz : z.isLayout = true) (hy : y.isLayout = false) :
    (s.indentation ≠ none ∧ s.prev ≠ none ∧ z.span.endByte = s.prevEnd) ∨
      (∃ a ∈ ps, a.lexeme.kind = .token z.kind ∧ a.span = z.span) ∨
      ∃ l ∈ ps, l.lexeme.kind = .lineBreak ∧ z.span.endByte ≤ l.span.startByte ∧
        l.span.endByte ≤ y.span.startByte := by
  induction ps generalizing s n t X with
  | nil =>
    unfold layout at h
    split at h
    · next prev _ =>
      have hmem : y ∈ (LineState.lineEnd prev s.blocks 0).1 := by simp [h]
      rw [(LineState.isMark_of_mem_lineEnd hmem).1.1] at hy
      simp at hy
    · simp at h
  | cons q ps ih =>
    obtain ⟨hstart, hend, rest, rfl, hrest⟩ := hcover
    have hlift : (∃ a ∈ ps, a.lexeme.kind = .token z.kind ∧ a.span = z.span) ∨
        (∃ l ∈ ps, l.lexeme.kind = .lineBreak ∧ z.span.endByte ≤ l.span.startByte ∧
          l.span.endByte ≤ y.span.startByte) →
        (∃ a ∈ q :: ps, a.lexeme.kind = .token z.kind ∧ a.span = z.span) ∨
        ∃ l ∈ q :: ps, l.lexeme.kind = .lineBreak ∧ z.span.endByte ≤ l.span.startByte ∧
          l.span.endByte ≤ y.span.startByte := by
      rintro (⟨a, ha, h⟩ | ⟨l, hl, h⟩)
      · exact .inl ⟨a, List.mem_cons_of_mem q ha, h⟩
      · exact .inr ⟨l, List.mem_cons_of_mem q hl, h⟩
    unfold layout at h
    split at h
    · next kind hkind =>
      have h' : s.beforeToken.1 ++ q.token kind ::
        layout (s.beforeToken.2.afterToken (q.token kind)) ps = X ++ z :: y :: R := h
      rcases List.append_eq_append_iff.1 h' with ⟨as, hX, hcons⟩ | ⟨bs, hmarks, hcons⟩
      · cases as with
        | nil =>
          obtain ⟨rfl, -⟩ := List.cons.inj hcons
          exact .inr (.inl ⟨q, List.mem_cons_self .., hkind, rfl⟩)
        | cons a as =>
          obtain ⟨rfl, htail⟩ := List.cons.inj hcons
          rcases ih hrest (Nat.le_refl _) htail with ⟨hnone, -⟩ | hlater
          · exact absurd s.indentation_beforeToken hnone
          · exact .inr (hlift hlater)
      · cases bs with
        | nil =>
          obtain ⟨rfl, -⟩ := List.cons.inj hcons
          exact .inr (.inl ⟨q, List.mem_cons_self .., hkind, rfl⟩)
        | cons b bs =>
          -- the mark is one of those that the start of the line has left
          obtain ⟨rfl, -⟩ := List.cons.inj hcons
          have hmem : z ∈ s.beforeToken.1 := by simp [hmarks]
          obtain ⟨prev, hsome, -, hzend⟩ := LineState.mem_beforeToken hmem
          refine .inl ⟨fun hnone => ?_, by simp [hsome], by rw [hzend, LineState.prevEnd, hsome]⟩
          rw [LineState.beforeToken_of_none hnone] at hmem
          simp at hmem
    · next hsilent =>
      rcases ih hrest (by rw [s.prevEnd_afterSilent]; omega) h with ⟨hsome, hprev', hzend⟩ | hlater
      · rw [s.prev_afterSilent] at hprev'
        rw [s.prevEnd_afterSilent] at hzend
        by_cases hnone : s.indentation = none
        · -- the lexeme is the line break that has begun the line
          have hbreak : q.lexeme.kind = .lineBreak := by
            unfold LineState.afterSilent at hsome
            split at hsome
            · next hkind => exact hkind
            · simp [hnone] at hsome
            · exact absurd hnone hsome
          have hyend : q.span.endByte ≤ y.span.startByte := by
            have hmem : y ∈ layout (s.afterSilent q.lexeme) ps := by simp [h]
            rcases isMark_or_stands_of_mem_layout hmem with hmark | ⟨p, hp, -, -, hspan⟩
            · rw [hmark.1] at hy
              simp at hy
            · rw [← hspan]
              exact (hrest.start_le hp).1
          exact .inr (.inr ⟨q, List.mem_cons_self .., hbreak, by omega, hyend⟩)
        · exact .inl ⟨hnone, hprev', hzend⟩
      · exact .inr (hlift hlater)

end Redeploy.Syntax
