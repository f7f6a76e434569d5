import Mathlib.Data.List.Basic
import Redeploy.Proofs.Syntax.Code
import Redeploy.Proofs.Syntax.Parsed
import Redeploy.Proofs.Syntax.Rows

set_option autoImplicit false

/-! # Between the statements of a module

What stands between two statements that follow each other: spaces and separators. One semicolon can
stand there at most, and no line break in front of it (`pairwise_separators`). -/

namespace Redeploy.Syntax

/-! ## Separators -/

/-- What keeps two statements apart. -/
inductive Separator where
  /-- A semicolon. -/
  | semicolon
  /-- A line break that is not hidden. -/
  | lineBreak
  deriving DecidableEq

/-- The separator that a lexeme is. -/
def Lexeme.separator? (l : Lexeme) : Option Separator :=
  if l.kind = .lineBreak then some .lineBreak
  else if l = ⟨.token .symbol, [';']⟩ then some .semicolon
  else none

/-- The separators of a script between two offsets. -/
def separators (source : Text) (m n : Nat) : List Separator :=
  ((placedLexemes source).filter fun p => decide (m ≤ p.span.startByte) &&
    decide (p.span.endByte ≤ n)).filterMap fun p => p.lexeme.separator?

/-! ## Order -/

theorem Cover.pairwise {n : Nat} {ps : List Placed} {t : Text} (h : Cover n ps t) :
    ps.Pairwise fun p q => p.span.endByte ≤ q.span.startByte := by
  induction ps generalizing n t with
  | nil => exact .nil
  | cons p ps ih =>
    obtain ⟨-, -, rest, -, hrest⟩ := h
    exact List.pairwise_cons.2 ⟨fun q hq => (hrest.start_le hq).1, ih hrest⟩

/-- What stands between two lexemes is between them in the list. -/
theorem Cover.mem_of_between {n : Nat} {A G B : List Placed} {p q a : Placed} {t : Text}
    (h : Cover n (A ++ p :: (G ++ q :: B)) t) (ha : a ∈ A ++ p :: (G ++ q :: B))
    (hne : a.span.startByte < a.span.endByte) (hp : p.span.endByte ≤ a.span.startByte)
    (hq : a.span.endByte ≤ q.span.startByte) : a ∈ G := by
  have hpspan := (h.start_le (p := p) (by simp)).2
  have hqspan := (h.start_le (p := q) (by simp)).2
  obtain ⟨-, hbehind, hfront⟩ := List.pairwise_append.1 h.pairwise
  obtain ⟨-, hrest⟩ := List.pairwise_cons.1 hbehind
  obtain ⟨-, hlast, -⟩ := List.pairwise_append.1 hrest
  simp only [List.mem_append, List.mem_cons] at ha
  rcases ha with ha | rfl | ha | rfl | ha
  · have := hfront a ha p (by simp)
    omega
  · omega
  · exact ha
  · omega
  · have := (List.pairwise_cons.1 hlast).1 a ha
    omega

namespace Token

theorem InOrder.le_of_append {n : Nat} {xs ys : List Token} {y : Token}
    (h : InOrder n (xs ++ y :: ys)) {x : Token} (hx : x ∈ xs) :
    x.span.endByte ≤ y.span.startByte := by
  obtain ⟨hxs, hys⟩ := (inOrder_append n xs (y :: ys)).1 h
  exact Nat.le_trans (hxs.bounds hx).2.2 hys.1

end Token

/-! ## Behind a statement -/

/-- A token that a simple statement can end in. -/
structure Token.Finished (t : Token) : Prop where
  written : t.isLayout = false
  code : opensContent t.kind = false
  operand : t.lacksOperand = false

theorem finished_of_isUnfinished {u : Use} (h : u.terminal.isUnfinished = false)
    (hacc : u.terminal.accepts u.token = true) : u.token.Finished := by
  obtain ⟨t, token⟩ := u
  have hother : ∀ k, token.kind = k → isLayoutKind k = false → opensContent k = false →
      token.lacksOperand = false → token.Finished := by
    rintro k rfl hlayout hopens hoperand
    exact ⟨hlayout, hopens, hoperand⟩
  have hoperand : token.kind ≠ .symbol → token.lacksOperand = false := fun hkind => by
    simp [Token.lacksOperand, hkind]
  cases t with
  | word ws =>
    simp only [Terminal.accepts, Bool.and_eq_true, beq_iff_eq] at hacc
    exact hother _ hacc.1 rfl rfl (hoperand (by simp [hacc.1]))
  | wordExcept ws =>
    simp only [Terminal.accepts, Bool.and_eq_true, beq_iff_eq] at hacc
    exact hother _ hacc.1 rfl rfl (hoperand (by simp [hacc.1]))
  | symbol ss =>
    simp only [Terminal.accepts, Bool.and_eq_true, beq_iff_eq, List.any_eq_true] at hacc
    obtain ⟨hkind, s, hs, htext⟩ := hacc
    refine hother _ hkind rfl rfl ?_
    have hnot : s ∉ Token.operators := by
      simpa using List.any_eq_false.1 h s hs
    simp only [Token.lacksOperand, hkind, beq_self_eq_true, Bool.true_and, List.any_eq_false,
      beq_iff_eq, htext, String.toList_inj]
    rintro o ho rfl
    exact hnot ho
  | kind k =>
    simp only [Terminal.accepts, beq_iff_eq] at hacc
    simp only [Terminal.isUnfinished, Bool.or_eq_false_iff, beq_eq_false_iff_ne] at h
    exact hother k hacc h.1.1 h.1.2 (hoperand (hacc ▸ h.2))

theorem kind_of_isMark {t : Terminal} {token : Token} (ht : t.isMark = true)
    (h : t.accepts token = true) : token.isLayout = true := by
  show isLayoutKind token.kind = true
  unfold Terminal.isMark at ht
  split at ht
  · rw [show token.kind = _ from beq_iff_eq.1 h]
    rfl
  · rw [show token.kind = _ from beq_iff_eq.1 h]
    rfl
  · rw [show token.kind = _ from beq_iff_eq.1 h]
    rfl
  · simp at ht

theorem isLayout_of_isMark_eq_false {t : Terminal} {token : Token} (ht : t.isMark = false)
    (h : t.accepts token = true) : token.isLayout = false := by
  cases t with
  | word ws =>
    simp only [Terminal.accepts, Bool.and_eq_true, beq_iff_eq] at h
    simp [Token.isLayout, h.1]
  | wordExcept ws =>
    simp only [Terminal.accepts, Bool.and_eq_true, beq_iff_eq] at h
    simp [Token.isLayout, h.1]
  | symbol ss =>
    simp only [Terminal.accepts, Bool.and_eq_true, beq_iff_eq] at h
    simp [Token.isLayout, h.1]
  | kind k =>
    rw [Terminal.accepts, beq_iff_eq] at h
    rw [Token.isLayout, h]
    cases k <;> first | rfl | simp [Terminal.isMark] at ht

/-- The tokens of a script at the end of a statement: up to the last one of the statement, behind it
    up to the next statement, and from there on. -/
structure GapAt (ps : List Placed) (x : Tree) (post : List Tree) (X : List Token) (last : Token)
    (vs ws : List Use) : Prop where
  tokens : tokensOf ps = X ++ last :: (Use.tokens vs ++ Use.tokens ws)
  stop : last.span.endByte = x.span.endByte
  depth : Token.depthBehind 0 (X ++ [last]) = 0
  mark : isCompound x.kind = true → last.isLayout = true
  finished : isCompound x.kind = false → last.Finished
  between : Between (!isCompound x.kind) vs post
  accepts : ∀ v ∈ vs ++ ws, v.terminal.accepts v.token = true
  next : BeginsWith ws post

theorem exists_gapAt {ps : List Placed} {pre post : List Tree} {x : Tree}
    (hread : readTokens (tokensOf ps) = .ok (pre ++ x :: post)) :
    ∃ X last vs ws, GapAt ps x post X last vs ws := by
  obtain ⟨us, k, hus, hreads⟩ := exists_reads_of_readTokens hread
  obtain ⟨xs, hbuilt, hrows⟩ := hreads.rows
  obtain rfl : xs = pre ++ x :: post := by
    have := congrArg List.reverse hbuilt
    simpa using this.symm
  obtain ⟨vs, u, ws, ws', rfl, hvs, hx, htail⟩ := hrows.readAt hreads.accepts
  obtain ⟨vs', ws'', rfl, hbetween, hnext⟩ := htail.exists_between
  obtain ⟨front, last, hlast⟩ : ∃ front last, u :: ws = front ++ [last] :=
    ⟨_, _, (List.dropLast_append_getLast (List.cons_ne_nil u ws)).symm⟩
  have hmem : last ∈ (u :: ws).getLast? := by simp [hlast]
  have hend : last.token.span.endByte = x.span.endByte := by
    have hD : ws.getLastD u = last := by
      have := congrArg List.getLast? hlast
      rw [List.getLast?_cons, List.getLast?_append, List.getLast?_singleton, Option.some_or,
        Option.some.injEq] at this
      rw [List.getLastD_eq_getLast?, this]
    rw [hx.span, Use.span, hD]
    rfl
  have htokens : tokensOf ps = Use.tokens (vs ++ front) ++ last.token ::
      (Use.tokens vs' ++ Use.tokens ws'') := by
    rw [← hus, hlast]
    simp [Use.tokens]
  have hdepth : Token.depthBehind 0 (Use.tokens (vs ++ front) ++ [last.token]) = 0 := by
    have := hvs.append hx.whole 0
    rw [hlast] at this
    simpa [Use.tokens] using this
  have hfinished : isCompound x.kind = false → last.token.Finished := fun hsimple =>
    finished_of_isUnfinished (hx.finished hsimple last hmem) (hreads.accepts last (by simp [hlast]))
  have hmark : isCompound x.kind = true → last.token.isLayout = true := fun hcompound =>
    kind_of_isMark (hx.mark hcompound last hmem) (hreads.accepts last (by simp [hlast]))
  exact ⟨_, last.token, vs', ws'', htokens, hend, hdepth, hmark, hfinished, hbetween,
    fun v hv => hreads.accepts v (by simpa using .inr (.inr (.inr (List.mem_append.1 hv)))), hnext⟩

theorem Mended.mem_of_mem {source : Text} {ps : List Placed} (h : Mended source ps) {p : Placed}
    (hp : p ∈ placedLexemes source) : p ∈ ps := by
  rw [← h.written] at hp
  exact List.mem_of_mem_filter hp

theorem lt_of_mem_placedLexemes {source : Text} {p : Placed} (h : p ∈ placedLexemes source) :
    p.span.startByte < p.span.endByte := by
  obtain ⟨_, _, _, hstart, hend⟩ := (cover_placedLexemes source).exists_append h
  have hpos : 0 < Text.size p.lexeme.text := by
    rw [Nat.pos_iff_ne_zero, Ne, Text.size_eq_zero]
    exact text_ne_nil_of_mem_placedLexemes h
  omega

theorem text_of_isSemicolon {t : Terminal} {token : Token} (ht : t.isSemicolon = true)
    (h : t.accepts token = true) : token.kind = .symbol ∧ token.text = [';'] := by
  unfold Terminal.isSemicolon at ht
  split at ht
  · rw [beq_iff_eq] at ht
    subst ht
    simpa [Terminal.accepts] using h
  · simp at ht

section Gap

variable {source : Text} {ps : List Placed} {x : Tree} {post : List Tree} {X : List Token}
  {last : Token} {vs ws : List Use}

/-- A token behind a statement and in front of the next one is a semicolon. -/
theorem GapAt.exists_semicolon (hps : Mended source ps) (h : GapAt ps x post X last vs ws) {a : Placed}
    {k : TokenKind} (ha : a ∈ placedLexemes source) (hk : a.lexeme.kind = .token k)
    (hx : x.span.endByte ≤ a.span.startByte)
    (hpost : ∀ q ∈ post.head?, a.span.startByte < q.span.startByte) :
    a.lexeme = ⟨.token .symbol, [';']⟩ ∧
      ∃ s ∈ vs, s.terminal.isSemicolon = true ∧ s.token = a.token k := by
  have hne : a.span.startByte < a.span.endByte := lt_of_mem_placedLexemes ha
  have horder := hps.inOrder
  have hmem : a.token k ∈ tokensOf ps := mem_layout_of_mem (hps.mem_of_mem ha) hk
  rw [h.tokens] at horder hmem
  have hlast := h.stop
  simp only [List.mem_append, List.mem_cons] at hmem
  rcases hmem with hmem | rfl | hmem | hmem
  · -- in front of the end of the statement
    have hle := horder.le_of_append hmem
    have hspan := ((Token.inOrder_append _ _ _).1 horder).2.2.1
    have hend : (a.token k).span.endByte = a.span.endByte := rfl
    omega
  · have hend : (a.token k).span.endByte = a.span.endByte := rfl
    omega
  · obtain ⟨v, hv, hva⟩ := List.mem_map.1 hmem
    have hacc := h.accepts v (List.mem_append_left ws hv)
    rcases h.between.separator v hv with hsemicolon | hmark
    · obtain ⟨hkind, htext⟩ := text_of_isSemicolon hsemicolon hacc
      rw [hva] at hkind htext
      obtain rfl : k = .symbol := hkind
      refine ⟨?_, v, hv, hsemicolon, hva⟩
      rw [← hk, ← show a.lexeme.text = [';'] from htext]
    · -- the scan finds no layout marks
      have hlayout := kind_of_isMark hmark hacc
      rw [hva] at hlayout
      exact absurd hk (ne_layout_of_mem_scanWith (lexeme_mem_of_mem_placeFrom ha) hlayout)
  · -- in the next statement or behind its start
    rcases h.next with ⟨-, rfl⟩ | ⟨q, rest, u, ws', ws'', rfl, rfl, hq'⟩
    · simp [Use.tokens] at hmem
    · have hq := hpost q rfl
      have hstart : u.token.span.startByte = q.span.startByte := by
        rw [hq'.span]
        rfl
      have hws := ((Token.inOrder_append _ _ _).1
        ((Token.inOrder_append _ _ _).1 horder).2.2.2).2
      rcases List.mem_cons.1 hmem with hu | hrest
      · have : (a.token k).span.startByte = a.span.startByte := rfl
        rw [hu] at this
        omega
      · have hle := (hws.2.2.bounds hrest).1
        have hu := hws.2.1
        have : (a.token k).span.startByte = a.span.startByte := rfl
        omega

/-- In front of a semicolon behind a statement there is no separator. -/
theorem GapAt.separator?_eq_none (hps : Mended source ps) (h : GapAt ps x post X last vs ws)
    {a b : Placed} (ha : a ∈ placedLexemes source) (hb : b ∈ placedLexemes source)
    (hkind : b.lexeme.kind = .token .symbol) (hab : a.span.endByte ≤ b.span.startByte)
    (hx : x.span.endByte ≤ a.span.startByte)
    (hpost : ∀ q ∈ post.head?, b.span.startByte < q.span.startByte) : a.lexeme.separator? = none := by
  have hcover := hps.cover
  have ha' := hps.mem_of_mem ha
  have hne : a.span.startByte < a.span.endByte := lt_of_mem_placedLexemes ha
  obtain ⟨-, s, hs, hsemicolon, hsb⟩ := h.exists_semicolon hps hb hkind (by omega) hpost
  -- the semicolon is the next token behind the statement, which is simple
  obtain ⟨hsimple, rest, hvs⟩ := h.between.eq_cons hs hsemicolon
  rw [Bool.not_eq_true'] at hsimple
  obtain ⟨hwritten, -, hoperand⟩ := h.finished hsimple
  have htokens := h.tokens
  rw [hvs, Use.tokens, List.map_cons, hsb] at htokens
  obtain ⟨A, p, B, s', hlaid, -⟩ := exists_of_layout_eq htokens hwritten
  have hpend : p.span.endByte = last.span.endByte := congrArg (·.span.endByte) hlaid.token
  obtain ⟨G, q, B', rfl, hq, hqb, hG, hbreak⟩ := exists_of_layout_eq_cons hlaid.rest hlaid.prev rfl
  obtain ⟨-, hlineBreak⟩ := hbreak (hlaid.depth.trans h.depth) hoperand
  have hqstart : q.span.startByte = b.span.startByte := congrArg (·.span.startByte) hqb
  have hstop := h.stop
  rw [hlaid.lexemes] at ha' hcover
  have haG : a ∈ G := hcover.mem_of_between ha' hne (by omega) (by omega)
  unfold Lexeme.separator?
  rw [if_neg (hlineBreak a haG), if_neg]
  rintro heq
  exact hG a haG .symbol (congrArg Lexeme.kind heq)

/-- Behind a statement, a semicolon can only be the first separator. -/
theorem GapAt.pairwise_separators (hps : Mended source ps) (h : GapAt ps x post X last vs ws)
    {m n : Nat} (hm : x.span.endByte ≤ m) (hn : ∀ q ∈ post.head?, n ≤ q.span.startByte) :
    (separators source m n).Pairwise fun _ s => s = .lineBreak := by
  unfold separators
  rw [List.pairwise_filterMap, List.pairwise_filter]
  refine (cover_placedLexemes source).pairwise.imp_of_mem fun {a b} ha hb hab => ?_
  simp only [Bool.and_eq_true, decide_eq_true_eq]
  rintro ⟨hma, -⟩ ⟨-, hbn⟩ s hs s' hs'
  have hlt : b.span.startByte < b.span.endByte := lt_of_mem_placedLexemes hb
  by_cases hkind : b.lexeme.kind = .token .symbol
  · have := h.separator?_eq_none hps ha hb hkind hab (by omega) fun q hq => by
      have := hn q hq
      omega
    rw [this] at hs
    simp at hs
  · unfold Lexeme.separator? at hs'
    split at hs'
    · exact (Option.some.inj hs').symm
    · rw [if_neg fun heq => hkind (congrArg Lexeme.kind heq)] at hs'
      simp at hs'

/-- Behind a simple statement, up to the next one, each lexeme is space or a semicolon. -/
theorem GapAt.space_or_semicolon (hps : Mended source ps) (h : GapAt ps x post X last vs ws)
    (hsimple : isCompound x.kind = false) : ∃ A p B, placedLexemes source = A ++ p :: B ∧
      p.span.endByte = x.span.endByte ∧
      ∀ L R, B = L ++ R → (∀ l ∈ L, ∀ q ∈ post.head?, l.span.startByte < q.span.startByte) →
        ∀ l ∈ L, l.lexeme.IsCode ∧
          (l.lexeme.isSpace = true ∨ l.lexeme = ⟨.token .symbol, [';']⟩) := by
  obtain ⟨hwritten, hcode, -⟩ := h.finished hsimple
  obtain ⟨A, p, B, s', hlaid, -⟩ := exists_of_layout_eq h.tokens hwritten
  have hne := hps.text_ne_nil (p := p) (hlaid.lexemes ▸ by simp) fun hkind => by
    rw [hlaid.kind, LexemeKind.token.injEq] at hkind
    rw [Token.isLayout, hkind] at hwritten
    simp at hwritten
  have hplaced := hps.written
  rw [hlaid.lexemes, List.filter_append, List.filter_cons_of_pos (by simpa using hne)] at hplaced
  have hpend : p.span.endByte = last.span.endByte := congrArg (·.span.endByte) hlaid.token
  refine ⟨_, p, _, hplaced.symm, by rw [hpend, h.stop], ?_⟩
  generalize A.filter _ = A' at hplaced
  generalize B.filter _ = B' at hplaced
  rintro L R rfl hpost
  have hpairwise := (cover_placedLexemes source).pairwise
  rw [← hplaced] at hpairwise
  have hbehind : ∀ l ∈ L, x.span.endByte ≤ l.span.startByte := fun l hl => by
    have := (List.pairwise_cons.1 (List.pairwise_append.1 hpairwise).2.1).1 l (by simp [hl])
    have := h.stop
    omega
  have hsemicolon : ∀ l ∈ L, ∀ k, l.lexeme.kind = .token k → l.lexeme = ⟨.token .symbol, [';']⟩ :=
    fun l hl k hk => (h.exists_semicolon hps (hplaced ▸ by simp [hl]) hk (hbehind l hl)
      (hpost l hl)).1
  have hscan : scan source = A'.map Placed.lexeme ++ p.lexeme ::
      (L.map Placed.lexeme ++ R.map Placed.lexeme) := by
    rw [← map_lexeme_placeFrom .start (scan source), show placeFrom _ _ = placedLexemes source from rfl,
      ← hplaced]
    simp
  have hcodes := isCode_of_scan hscan hlaid.kind hcode (by
    intro l hl k hk
    obtain ⟨p', hp', rfl⟩ := List.mem_map.1 hl
    have hkind := congrArg Lexeme.kind (hsemicolon p' hp' k hk)
    rw [hk, LexemeKind.token.injEq] at hkind
    rw [hkind]
    rfl)
  intro l hl
  have hl' := hcodes l.lexeme (List.mem_map_of_mem hl)
  refine ⟨hl', ?_⟩
  cases hkind : l.lexeme.kind with
  | token k => exact .inr (hsemicolon l hl k hkind)
  | content => exact absurd hkind hl'.1
  | blank => exact .inl (by simp [Lexeme.isSpace, hkind])
  | continuation => exact .inl (by simp [Lexeme.isSpace, hkind])
  | comment => exact .inl (by simp [Lexeme.isSpace, hkind])
  | lineBreak => exact .inl (by simp [Lexeme.isSpace, hkind])

end Gap

/-- What stands between two offsets of a script: whole lexemes, each of them space or a semicolon. -/
def SpaceBetween (source : Text) (m n : Nat) : Prop :=
  ∃ A L B, placedLexemes source = A ++ L ++ B ∧ Text.size (written A) = m ∧
    Text.size (written (A ++ L)) = n ∧
    ∀ l ∈ L, l.lexeme.isSpace = true ∨ l.lexeme = ⟨.token .symbol, [';']⟩

/-- Where several lexemes of a cover end. -/
theorem Cover.size_written {A B : List Placed} {p : Placed} {t : Text}
    (h : Cover 0 (A ++ p :: B) t) : Text.size (written (A ++ [p])) = p.span.endByte := by
  obtain ⟨rest, -, hstart, hend, -⟩ := h.append
  rw [written_append, Text.size_append, written_cons, Text.size_append]
  simp only [written, List.flatMap_nil, Text.size_nil] at *
  omega

/-- The rest of the line of a simple statement, if no other one begins on it. -/
theorem spaceBetween_lineEnd {source : Text} {ps : List Placed} {pre post : List Tree} {x : Tree}
    (hps : Mended source ps) (hread : readTokens (tokensOf ps) = .ok (pre ++ x :: post))
    (hsimple : isCompound x.kind = false)
    (hpost : ∀ q ∈ post.head?, source.lineEnd x.span.endByte ≤ q.span.startByte) :
    SpaceBetween source x.span.endByte (source.lineEnd x.span.endByte) := by
  obtain ⟨X, last, vs, ws, hgap⟩ := exists_gapAt hread
  obtain ⟨A, p, B, hplaced, hpend, hspace⟩ := hgap.space_or_semicolon hps hsimple
  have hcover := cover_placedLexemes source
  have hcut : source.IsCut x.span.endByte := by
    rw [← hpend]
    exact (hcover.isCut (p := p) (by simp [hplaced])).2
  rw [← hpend] at hpost hcut ⊢
  -- the lexemes that begin on the line
  let L := B.takeWhile fun l => decide (l.span.startByte < source.lineEnd p.span.endByte)
  let R := B.dropWhile fun l => decide (l.span.startByte < source.lineEnd p.span.endByte)
  have hB : B = L ++ R := List.takeWhile_append_dropWhile.symm
  have hline : ∀ l ∈ L, l.span.startByte < source.lineEnd p.span.endByte := fun l hl => by
    simpa using List.all_eq_true.1 List.all_takeWhile l hl
  have hL := hspace L R hB fun l hl q hq => Nat.lt_of_lt_of_le (hline l hl) (hpost q hq)
  rw [hB] at hplaced
  rw [hplaced] at hcover
  refine ⟨A ++ [p], L, R, by rw [hplaced]; simp, hcover.size_written, ?_, fun l hl => (hL l hl).2⟩
  apply Nat.le_antisymm
  · rcases List.eq_nil_or_concat L with hnil | ⟨L', l, hconcat⟩
    · rw [hnil, List.append_nil, hcover.size_written]
      exact Text.le_lineEnd hcut
    · -- the last lexeme ends on the line
      rw [List.concat_eq_append] at hconcat
      have hl : l ∈ L := by simp [hconcat]
      have hsize : Text.size (written (A ++ [p] ++ L)) = l.span.endByte := by
        have hcover' : Cover 0 ((A ++ p :: L') ++ l :: R) source := by
          rw [hconcat] at hcover
          simpa using hcover
        rw [← hcover'.size_written, hconcat]
        simp
      have hpl : p.span.endByte ≤ l.span.startByte :=
        (List.pairwise_cons.1 (List.pairwise_append.1 hcover.pairwise).2.1).1 l (by simp [hl])
      obtain ⟨a, b, hsource, hstart, hend⟩ := hcover.exists_append (p := l) (by simp [hl])
      have hlineEnd := Text.OnLineBehind.lineEnd_eq ⟨hpl, hline l hl⟩ hcut
        (hcover.isCut (p := l) (by simp [hl])).1
      have hnot : '\n' ∉ l.lexeme.text.dropLast := by
        rcases hL l hl with ⟨hcode, hspace | hsemicolon⟩
        · exact hcode.2 hspace
        · simp [hsemicolon]
      have hle : _ ≤ Text.lineEnd (a ++ l.lexeme.text ++ b) a.size := Text.size_le_lineEnd hnot
      rw [← hsource, show a.size = l.span.startByte by omega, hlineEnd, Text.size_append] at hle
      omega
  · cases hR : R with
    | nil =>
      have hsource : source = written (A ++ [p] ++ L) := by
        rw [hcover.eq_written, hR]
        simp
      rw [← hsource]
      exact (Text.isCut_lineEnd hcut).le_size
    | cons r R' =>
      -- the next lexeme begins behind the line
      have hr : ¬ r.span.startByte < source.lineEnd p.span.endByte := by
        have := List.head?_dropWhile_not (fun l : Placed =>
          decide (l.span.startByte < source.lineEnd p.span.endByte)) B
        rw [show B.dropWhile _ = r :: R' from hR] at this
        simpa using this
      have hcover' : Cover 0 ((A ++ [p] ++ L) ++ r :: R') source := by
        rw [hR] at hcover
        simpa using hcover
      obtain ⟨rest, -, hstart, -⟩ := hcover'.append
      omega

/-! ## Statements that are kept apart -/

/-- Whether separators keep a statement apart from the one in front of it: a semicolon can only be the
    first of them, and if there is no line break, there is a semicolon and the statement is simple. -/
def KeepApart (seps : List Separator) (q : Tree) : Prop :=
  (seps.Pairwise fun _ s => s = .lineBreak) ∧
    (.lineBreak ∈ seps ∨ (.semicolon ∈ seps ∧ isCompound q.kind = false))

theorem mem_separators {source : Text} {m n : Nat} {s : Separator} : s ∈ separators source m n ↔
    ∃ a ∈ placedLexemes source, m ≤ a.span.startByte ∧ a.span.endByte ≤ n ∧
      a.lexeme.separator? = some s := by
  simp [separators, List.mem_filterMap, and_assoc]

/-- A layout mark in front of a token: there is a line break between them, or the mark has been
    added. -/
theorem Mended.lineBreak_or_added {source : Text} {ps : List Placed} (hps : Mended source ps)
    {X R : List Token} {z y : Token} (h : tokensOf ps = X ++ z :: y :: R) (hz : z.isLayout = true)
    (hy : y.isLayout = false) :
    .lineBreak ∈ separators source z.span.endByte y.span.startByte ∨
      ∃ a ∈ ps, IsAddedBreak ps a ∧ a.span.endByte = z.span.endByte := by
  have hwritten : ∀ a ∈ ps, a.lexeme.text ≠ [] → a ∈ placedLexemes source := fun a ha hne => by
    rw [← hps.written]
    exact List.mem_filter.2 ⟨ha, by simpa using hne⟩
  rcases exists_of_layout_mark hps.cover (Nat.le_refl _) h hz hy with
    ⟨-, hprev, -⟩ | ⟨a, ha, hkind, hspan⟩ | ⟨l, hl, hkind, hstart, hend⟩
  · exact absurd rfl hprev
  · by_cases hnil : a.lexeme.text = []
    · exact .inr ⟨a, ha, hps.added a ha hnil, by rw [hspan]⟩
    · -- the scan finds no layout marks
      have hmem := lexeme_mem_of_mem_placeFrom (hwritten a ha hnil)
      exact absurd hkind (ne_layout_of_mem_scanWith hmem hz)
  · have hne := hps.text_ne_nil hl (by simp [hkind])
    refine .inl (mem_separators.2 ⟨l, hwritten l hl hne, hstart, hend, ?_⟩)
    simp [Lexeme.separator?, hkind]

/-- Statements that follow each other are kept apart by what is written between them, unless a line
    break has been added there. -/
theorem keepApart_or_added {source : Text} {ps : List Placed} {pre post : List Tree} {x q : Tree}
    (hps : Mended source ps) (hread : readTokens (tokensOf ps) = .ok (pre ++ x :: q :: post)) :
    KeepApart (separators source x.span.endByte q.span.startByte) q ∨
      ∃ a ∈ ps, IsAddedBreak ps a ∧ x.span.endByte ≤ a.span.endByte ∧
        a.span.endByte ≤ q.span.startByte := by
  obtain ⟨X, last, vs, ws, hgap⟩ := exists_gapAt hread
  have hpairwise := hgap.pairwise_separators hps (n := q.span.startByte) (Nat.le_refl _) (by simp)
  obtain ⟨u, ws', ws'', rfl, hq⟩ : ∃ u ws' ws'', ws = u :: ws' ++ ws'' ∧ IsStatement q u ws' := by
    rcases hgap.next with ⟨h, -⟩ | ⟨q', rest, u, ws', ws'', h, hws, hq⟩
    · simp at h
    · obtain ⟨rfl, -⟩ := List.cons.inj h
      exact ⟨u, ws', ws'', hws, hq⟩
  have hqstart : q.span.startByte = u.token.span.startByte := by
    rw [hq.span]
    rfl
  have huacc := hgap.accepts u (by simp)
  have hu := isLayout_of_isMark_eq_false hq.begins huacc
  have htokens := hgap.tokens
  have horder := hps.inOrder
  have hstop := hgap.stop
  have hbreak : ∀ Y R z, tokensOf ps = Y ++ z :: u.token :: R → z.isLayout = true →
      last.span.endByte ≤ z.span.endByte →
      KeepApart (separators source x.span.endByte q.span.startByte) q ∨
        ∃ a ∈ ps, IsAddedBreak ps a ∧ x.span.endByte ≤ a.span.endByte ∧
          a.span.endByte ≤ q.span.startByte := by
    intro Y R z hz hlayout hle
    have hzu : z.span.endByte ≤ u.token.span.startByte := by
      rw [hz] at horder
      exact ((Token.inOrder_append _ _ _).1 horder).2.2.2.1
    rcases hps.lineBreak_or_added hz hlayout hu with hmem | ⟨a, ha, hadded, hend⟩
    · refine .inl ⟨hpairwise, .inl ?_⟩
      obtain ⟨l, hl, hstart, hend, hs⟩ := mem_separators.1 hmem
      exact mem_separators.2 ⟨l, hl, by omega, by omega, hs⟩
    · exact .inr ⟨a, ha, hadded, by omega, by omega⟩
  have hbetween := hgap.between
  generalize hb : (!isCompound x.kind) = b at hbetween
  cases hbetween with
  | nothing =>
    rw [Bool.not_eq_false'] at hb
    exact hbreak X _ last htokens (hgap.mark hb) (Nat.le_refl _)
  | @semicolon s _ _ hs hsimple =>
    -- the semicolon is written
    obtain ⟨hkind, htext⟩ := text_of_isSemicolon hs (hgap.accepts s (by simp))
    have hmem : s.token ∈ tokensOf ps := by
      rw [htokens]
      simp [Use.tokens]
    have hspan : last.span.endByte ≤ s.token.span.startByte ∧
        s.token.span.endByte ≤ u.token.span.startByte := by
      rw [htokens] at horder
      have := ((Token.inOrder_append _ _ _).1 horder).2.2.2
      exact ⟨this.1, this.2.2.1⟩
    rcases isMark_or_stands_of_mem_layout hmem with hmark | ⟨a, ha, hakind, hatext, haspan⟩
    · have := hmark.2.1
      rw [htext] at this
      simp at this
    · have haplaced : a ∈ placedLexemes source := by
        rw [← hps.written]
        exact List.mem_filter.2 ⟨ha, by simp [hatext, htext]⟩
      have ha : a.lexeme = ⟨.token .symbol, [';']⟩ := by rw [← hkind, ← htext, ← hakind, ← hatext]
      have hsemicolon : a.lexeme.separator? = some .semicolon := by
        rw [ha]
        rfl
      rw [← haspan] at hspan
      exact .inl ⟨hpairwise, .inr ⟨mem_separators.2 ⟨a, haplaced, by omega, by omega, hsemicolon⟩,
        hsimple⟩⟩
  | @lineEnd m _ hm =>
    have hlayout := kind_of_isMark hm (hgap.accepts m (by simp))
    refine hbreak (X ++ [last]) _ m.token (by rw [htokens]; simp [Use.tokens]; rfl) hlayout ?_
    rw [htokens] at horder
    have := ((Token.inOrder_append _ _ _).1 horder).2.2.2
    exact Nat.le_trans this.1 this.2.1
  | @lastLineEnd s m _ hs hm =>
    have hlayout := kind_of_isMark hm (hgap.accepts m (by simp))
    refine hbreak (X ++ [last, s.token]) _ m.token (by rw [htokens]; simp [Use.tokens]; rfl) hlayout ?_
    rw [htokens] at horder
    have := ((Token.inOrder_append _ _ _).1 horder).2.2.2
    exact Nat.le_trans this.1 (Nat.le_trans this.2.1 (Nat.le_trans this.2.2.1 this.2.2.2.1))

end Redeploy.Syntax
