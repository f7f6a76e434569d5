import Mathlib.Data.List.Chain
import Redeploy.Proofs.Syntax.OneStatement
import Redeploy.Proofs.Syntax.Parsed

set_option autoImplicit false

/-! # Lines of names

Words, points and commas with space between them are cut into the same lexemes wherever they stand, as
long as no two lexemes meet that would be one (`IsRun.cuts`). A run of such lexemes that has no line
break of its own is laid out as one line (`IsRun.exists_mark`). -/

namespace Redeploy.Syntax

/-! ## Lexemes that are cut by themselves -/

namespace Lexeme

/-- The lexemes that names are put together from. -/
inductive IsPlain : Lexeme → Prop
  | word {w : Text} (hw : IsIdentifier w) : IsPlain ⟨.token .word, w⟩
  | point : IsPlain ⟨.token .symbol, ['.']⟩
  | comma : IsPlain ⟨.token .symbol, [',']⟩
  | blank {w : Text} (hne : w ≠ []) (hw : ∀ c ∈ w, isGap c = true) : IsPlain ⟨.blank, w⟩
  | continuation {w : Text} (hw : w = ['\n'] ∨ w = ['\r', '\n']) : IsPlain ⟨.continuation, '\\' :: w⟩
  | comment {w : Text} (hw : '\n' ∉ w) : IsPlain ⟨.comment, '#' :: w⟩
  | lineBreak : IsPlain ⟨.lineBreak, ['\n']⟩

/-- A lexeme of some kind ends in front of a text. -/
def StopsAt (kind : LexemeKind) (u : Text) : Prop :=
  match kind with
  | .token .word => EndsName u
  | .token .symbol => ∀ c ∈ u.head?, c ≠ '.' ∧ isAsciiDigit c = false
  | .blank => ∀ c ∈ u.head?, isGap c = false
  | .comment => ∀ c ∈ u.head?, c = '\n'
  | _ => True

/-- Two lexemes that follow each other are not one. -/
def Precedes (l l' : Lexeme) : Prop :=
  match l.kind with
  | .comment => l'.kind = .lineBreak
  | .continuation | .lineBreak => True
  | kind => l'.kind ≠ kind

variable {l l' : Lexeme}

theorem IsPlain.text_ne_nil (h : l.IsPlain) : l.text ≠ [] := by
  cases h with
  | word hw =>
    obtain ⟨⟨c, hc, -⟩, -⟩ := hw
    rintro rfl
    simp at hc
  | blank hne => exact hne
  | _ => exact List.cons_ne_nil _ _

theorem continuesIdentifier_of_isGap {c : Char} (h : isGap c = true) :
    continuesIdentifier c = false ∧ isDelimiterQuote c = false ∧ isAsciiDigit c = false := by
  have hall : ∀ n ∈ gapCodes,
      continuesIdentifier (Char.ofNat n) = false ∧ isDelimiterQuote (Char.ofNat n) = false ∧
        isAsciiDigit (Char.ofNat n) = false := by decide +kernel
  exact forall_of_isGap (P := fun c => continuesIdentifier c = false ∧ isDelimiterQuote c = false ∧
    isAsciiDigit c = false) hall h

/-- What a plain lexeme begins with tells which lexemes end in front of it. -/
theorem IsPlain.stopsAt (h : l.IsPlain) (h' : l'.IsPlain) (hprecedes : l.Precedes l') (u : Text) :
    StopsAt l.kind (l'.text ++ u) := by
  have hhead : ∀ c ∈ (l'.text ++ u).head?, c ∈ l'.text.head? := by
    obtain ⟨d, w, hw⟩ := List.exists_cons_of_ne_nil h'.text_ne_nil
    simp [hw]
  cases h with
  | word hw =>
    intro c hc
    have hc' := hhead c hc
    cases h' with
    | word => exact absurd rfl hprecedes
    | blank hne hw =>
      have hgap := continuesIdentifier_of_isGap (hw c (List.mem_of_mem_head? hc'))
      exact ⟨hgap.1, hgap.2.1⟩
    | _ =>
      obtain rfl := Option.some.inj hc'
      decide
  | point | comma =>
    intro c hc
    have hc' := hhead c hc
    cases h' with
    | point | comma => exact absurd rfl hprecedes
    | word hw =>
      obtain ⟨⟨d, hd, hstart⟩, -⟩ := hw
      obtain rfl := Option.mem_unique hd hc'
      exact notPoint_of_startsIdentifier hstart
    | blank hne hw =>
      have hgap := hw c (List.mem_of_mem_head? hc')
      refine ⟨?_, (continuesIdentifier_of_isGap hgap).2.2⟩
      rintro rfl
      exact absurd hgap (by decide)
    | _ =>
      obtain rfl := Option.some.inj hc'
      decide
  | blank =>
    intro c hc
    have hc' := hhead c hc
    cases h' with
    | blank => exact absurd rfl hprecedes
    | word hw =>
      obtain ⟨⟨d, hd, hstart⟩, -⟩ := hw
      obtain rfl := Option.mem_unique hd hc'
      exact (notMark_of_startsIdentifier hstart).2.1
    | _ =>
      obtain rfl := Option.some.inj hc'
      decide
  | comment =>
    intro c hc
    have hc' := hhead c hc
    cases h' with
    | lineBreak =>
      obtain rfl := Option.some.inj hc'
      rfl
    | _ => simp [Precedes] at hprecedes
  | continuation | lineBreak => trivial

/-- A plain lexeme is cut by itself. -/
theorem IsPlain.cuts (h : l.IsPlain) : Cuts (StopsAt l.kind) l.text [l] := by
  cases h with
  | word hw => exact cuts_name hw
  | point => exact cuts_point
  | comma => exact cuts_comma.mono fun _ _ => trivial
  | blank hne hw => exact cuts_blanks hne hw
  | continuation hw =>
    refine cuts_lexeme (List.cons_ne_nil _ _) fun modes u _ _ => ?_
    rcases hw with rfl | rfl <;> rfl
  | @comment w hw =>
    refine cuts_lexeme (List.cons_ne_nil _ _) fun modes u _ hu => ?_
    have hlength : runLength (fun d => d != '\n') ('#' :: w ++ u) = ('#' :: w).length := by
      refine runLength_append (fun c hc => ?_) fun c hc => by simp [hu c hc]
      rcases List.mem_cons.1 hc with rfl | hc
      · rfl
      · simpa using ne_of_mem_of_not_mem hc hw
    show (LexemeKind.comment, runLength (fun d => d != '\n') ('#' :: w ++ u), modes) = _
    rw [hlength]
  | lineBreak =>
    exact cuts_lexeme (List.cons_ne_nil _ _) fun _ _ _ _ => rfl

end Lexeme

/-! ## One line -/

theorem LineState.afterSilent_line {s : LineState} (hindent : s.indentation = none) {l : Lexeme}
    (hl : l.kind ≠ .lineBreak) : s.afterSilent l = s := by
  obtain ⟨depth, blocks, prev, indentation⟩ := s
  obtain rfl : indentation = none := hindent
  unfold afterSilent
  split
  · next hkind => exact absurd hkind hl
  · rfl
  · rfl

/-- Lexemes without a line break are one line: a mark stands behind the last token, unless that asks for
    an operand. -/
theorem layout_line {ps : List Placed} {s : LineState} (hindent : s.indentation = none)
    (hblocks : s.blocks = []) (hps : ∀ p ∈ ps, p.lexeme.kind ≠ .lineBreak) {last : Token}
    (hlast : (ps.filterMap Placed.token?).getLast?.or s.prev = some last)
    (hfinished : last.lacksOperand = false) :
    ∃ mark, mark.kind = .newline ∧ layout s ps = ps.filterMap Placed.token? ++ [mark] := by
  induction ps generalizing s with
  | nil =>
    obtain ⟨depth, blocks, prev, indentation⟩ := s
    obtain rfl : blocks = [] := hblocks
    cases prev with
    | none => simp at hlast
    | some prev =>
      obtain rfl : prev = last := by simpa using hlast
      refine ⟨prev.layoutAfter .newline, rfl, ?_⟩
      show (LineState.lineEnd prev [] 0).1 = _
      simp [LineState.lineEnd, hfinished, LineState.goingOn]
  | cons p ps ih =>
    obtain ⟨⟨kind, text⟩, span⟩ := p
    have hp := hps _ (List.mem_cons_self ..)
    have hrest := fun q hq => hps q (List.mem_cons_of_mem _ hq)
    cases kind with
    | token kind =>
      have hstate : s.beforeToken = ([], { s with indentation := none }) := by
        obtain ⟨depth, blocks, prev, indentation⟩ := s
        obtain rfl : indentation = none := hindent
        cases prev <;> rfl
      have hlast' : (ps.filterMap Placed.token?).getLast?.or (some ⟨kind, text, span⟩) = some last := by
        have hcons : ((⟨kind, text, span⟩ : Token) :: ps.filterMap Placed.token?).getLast?.or s.prev =
            some last := hlast
        rwa [List.getLast?_cons, Option.some_or, ← Option.or_some] at hcons
      obtain ⟨mark, hmark, hlayout⟩ := ih
        (s := ({ s with indentation := none } : LineState).afterToken ⟨kind, text, span⟩) rfl hblocks
        hrest hlast'
      refine ⟨mark, hmark, ?_⟩
      show s.beforeToken.1 ++ _ :: layout (s.beforeToken.2.afterToken _) ps = _
      rw [hstate, hlayout]
      rfl
    | blank | continuation | comment | content =>
      obtain ⟨mark, hmark, hlayout⟩ := ih hindent hblocks hrest hlast
      refine ⟨mark, hmark, ?_⟩
      show layout (s.afterSilent _) ps = _
      rw [LineState.afterSilent_line hindent hp, hlayout]
      rfl
    | lineBreak => exact absurd rfl hp

theorem getLast?_tokensFrom (q : Position) (ls : List Lexeme) (kind : TokenKind) (w : Text) :
    (tokensFrom q (ls ++ [⟨.token kind, w⟩])).getLast? =
      some ⟨kind, w, (q.afterText (ls.flatMap Lexeme.text)).span
        ((q.afterText (ls.flatMap Lexeme.text)).afterText w)⟩ := by
  rw [tokensFrom_append]
  exact List.getLast?_concat

/-- The tokens of a script of one line. -/
theorem tokensOf_line {ls : List Lexeme} {kind : TokenKind} {w : Text}
    (hls : ∀ l ∈ ls, l.kind ≠ .lineBreak) {last : Token}
    (hlast : (tokensFrom .start (⟨.token kind, w⟩ :: ls)).getLast? = some last)
    (hfinished : last.lacksOperand = false) : ∃ mark, mark.kind = .newline ∧
      tokensOf (placeFrom .start (⟨.token kind, w⟩ :: ls)) =
        tokensFrom .start (⟨.token kind, w⟩ :: ls) ++ [mark] := by
  have hplaced : ∀ p ∈ placeFrom (Position.start.afterText w) ls, p.lexeme.kind ≠ .lineBreak :=
    fun p hp => hls p.lexeme (lexeme_mem_of_mem_placeFrom hp)
  rw [tokensFrom_cons, List.getLast?_cons, ← Option.or_some] at hlast
  have hlayout : ∀ s : LineState, s.indentation = none → s.blocks = [] →
      s.prev = some ⟨kind, w, Position.start.span (Position.start.afterText w)⟩ → _ :=
    fun s hindent hblocks hprev => layout_line hindent hblocks hplaced (hprev ▸ hlast) hfinished
  obtain ⟨mark, hmark, heq⟩ := hlayout (LineState.start.beforeToken.2.afterToken _) rfl rfl rfl
  exact ⟨mark, hmark, congrArg (_ :: ·) heq⟩

/-! ## Runs of lexemes -/

/-- Plain lexemes no two of which are one, from a word to a word. -/
structure IsRun (ls : List Lexeme) : Prop where
  plain : ∀ l ∈ ls, l.IsPlain
  chain : ls.IsChain Lexeme.Precedes
  first : ∃ l ∈ ls.head?, l.kind = .token .word
  last : ∃ l ∈ ls.getLast?, l.kind = .token .word

theorem cuts_of_isChain {ls : List Lexeme} (hne : ls ≠ []) (hplain : ∀ l ∈ ls, l.IsPlain)
    (hchain : ls.IsChain Lexeme.Precedes) :
    Cuts (Lexeme.StopsAt (ls.getLast hne).kind) (ls.flatMap Lexeme.text) ls := by
  induction ls with
  | nil => exact absurd rfl hne
  | cons l ls ih =>
    have hl := hplain l (List.mem_cons_self ..)
    cases ls with
    | nil =>
      have hcuts := hl.cuts
      rwa [show [l].flatMap Lexeme.text = l.text from List.append_nil _]
    | cons l' ls =>
      have hrest := ih (List.cons_ne_nil _ _) (fun x hx => hplain x (List.mem_cons_of_mem _ hx))
        hchain.tail
      rw [List.getLast_cons_cons]
      rw [List.flatMap_cons]
      refine hl.cuts.append hrest fun v _ => ?_
      have hl' := hplain l' (by simp)
      rw [List.flatMap_cons, List.append_assoc]
      exact hl.stopsAt hl' (List.isChain_cons_cons.1 hchain).1 _

namespace IsRun

variable {ls ms : List Lexeme}

theorem ne_nil (h : IsRun ls) : ls ≠ [] := by
  obtain ⟨l, hl, -⟩ := h.first
  rintro rfl
  simp at hl

/-- A run is cut by itself in front of anything that does not go on with a name. -/
theorem cuts (h : IsRun ls) : Cuts EndsName (ls.flatMap Lexeme.text) ls := by
  have hcuts := cuts_of_isChain h.ne_nil h.plain h.chain
  obtain ⟨l, hl, hkind⟩ := h.last
  rw [List.getLast?_eq_some_getLast h.ne_nil, Option.mem_some_iff] at hl
  rwa [hl, hkind] at hcuts

theorem scan_eq (h : IsRun ls) : scan (ls.flatMap Lexeme.text) = ls :=
  h.cuts.scan_eq (by simp [EndsName])

theorem word {w : Text} (hw : IsIdentifier w) : IsRun [⟨.token .word, w⟩] where
  plain := List.forall_mem_singleton.2 (.word hw)
  chain := List.isChain_singleton _
  first := ⟨_, rfl, rfl⟩
  last := ⟨_, rfl, rfl⟩

/-- What stands between two runs that make up one. -/
inductive IsJoint : List Lexeme → Prop
  | point : IsJoint [⟨.token .symbol, ['.']⟩]
  | blank : IsJoint [⟨.blank, [' ']⟩]
  | comma : IsJoint [⟨.token .symbol, [',']⟩, ⟨.blank, [' ']⟩]

theorem join {gs : List Lexeme} (h : IsRun ls) (hg : IsJoint gs) (h' : IsRun ms) :
    IsRun (ls ++ (gs ++ ms)) where
  plain := by
    have hblank : Lexeme.IsPlain ⟨.blank, [' ']⟩ :=
      .blank (List.cons_ne_nil _ _) (List.forall_mem_singleton.2 (by decide))
    have hgs : ∀ l ∈ gs, l.IsPlain := by
      cases hg with
      | point => exact List.forall_mem_singleton.2 .point
      | blank => exact List.forall_mem_singleton.2 hblank
      | comma =>
        exact List.forall_mem_cons.2 ⟨.comma,
          List.forall_mem_singleton.2 hblank⟩
    exact List.forall_mem_append.2 ⟨h.plain, List.forall_mem_append.2 ⟨hgs, h'.plain⟩⟩
  chain := by
    obtain ⟨l, hl, hkind⟩ := h.last
    obtain ⟨m, hm, hkind'⟩ := h'.first
    have hleft : ∀ l' ∈ ls.getLast?, ∀ k, k ≠ .token .word → ∀ w, l'.Precedes ⟨k, w⟩ := by
      intro l' hl' k hk w
      obtain rfl := Option.mem_unique hl hl'
      rw [Lexeme.Precedes, hkind]
      exact hk
    have hright : ∀ m' ∈ ms.head?, ∀ k, k = .blank ∨ k = .token .symbol → ∀ w,
        Lexeme.Precedes ⟨k, w⟩ m' := by
      intro m' hm' k hk w
      obtain rfl := Option.mem_unique hm hm'
      rcases hk with rfl | rfl <;> simp [Lexeme.Precedes, hkind']
    refine List.isChain_append.2 ⟨h.chain, List.isChain_append.2 ⟨?_, h'.chain, ?_⟩, ?_⟩
    · cases hg with
      | point | blank => exact List.isChain_singleton _
      | comma => simp [Lexeme.Precedes]
    · intro x hx y hy
      cases hg with
      | point =>
        obtain rfl := Option.some.inj hx
        exact hright y hy _ (.inr rfl) _
      | blank | comma =>
        obtain rfl := Option.some.inj hx
        exact hright y hy _ (.inl rfl) _
    · intro x hx y hy
      cases hg with
      | _ =>
        obtain rfl := Option.some.inj hy
        exact hleft x hx _ (by simp) _
  first := by
    obtain ⟨l, hl, hkind⟩ := h.first
    exact ⟨l, by rw [List.head?_append, Option.mem_def.1 hl]; rfl, hkind⟩
  last := by
    obtain ⟨m, hm, hkind⟩ := h'.last
    exact ⟨m, by simp [List.getLast?_append, Option.mem_def.1 hm], hkind⟩

/-- The tokens of a run go from its start to its end. -/
theorem spanOf_tokensFrom (h : IsRun ls) (q : Position) :
    spanOf (tokensFrom q ls) = q.span (q.afterText (ls.flatMap Lexeme.text)) := by
  obtain ⟨⟨k, w⟩, hl, hkind⟩ := h.first
  obtain ⟨rest, rfl⟩ := List.head?_eq_some_iff.1 hl
  obtain ⟨⟨k', w'⟩, hl', hkind'⟩ := h.last
  obtain ⟨front, hfront⟩ := List.getLast?_eq_some_iff.1 hl'
  obtain rfl : k = .token .word := hkind
  obtain rfl : k' = .token .word := hkind'
  have hend := getLast?_tokensFrom q front .word w'
  rw [← hfront] at hend
  have htext : (q.afterText (front.flatMap Lexeme.text)).afterText w' =
      q.afterText ((⟨.token .word, w⟩ :: rest : List Lexeme).flatMap Lexeme.text) := by
    rw [hfront, ← Position.afterText_append]
    simp
  rw [spanOf, List.getLastD_eq_getLast?, hend, ← htext]
  rfl

/-- A run without a line break of its own is a script of one line. -/
theorem exists_mark (h : IsRun ls) (hls : ∀ l ∈ ls, l.kind ≠ .lineBreak) :
    ∃ mark, mark.kind = .newline ∧ tokensOf (placedLexemes (ls.flatMap Lexeme.text)) =
      tokensFrom .start ls ++ [mark] := by
  rw [placedLexemes, h.scan_eq]
  obtain ⟨⟨k', w'⟩, hl', hkind'⟩ := h.last
  obtain ⟨front, hfront⟩ := List.getLast?_eq_some_iff.1 hl'
  obtain rfl : k' = .token .word := hkind'
  obtain ⟨⟨k, w⟩, hl, hkind⟩ := h.first
  obtain ⟨rest, rfl⟩ := List.head?_eq_some_iff.1 hl
  obtain rfl : k = .token .word := hkind
  have hend := getLast?_tokensFrom .start front .word w'
  rw [← hfront] at hend
  exact tokensOf_line (fun l hl => hls l (List.mem_cons_of_mem _ hl)) hend rfl

end IsRun

end Redeploy.Syntax
