import Redeploy.Proofs.Syntax.Code
import Redeploy.Proofs.Syntax.Layout
import Redeploy.Proofs.Syntax.Lines

set_option autoImplicit false

/-! # Runs of lexemes in a script

Wherever names, points and space between them stand in a script, the lexemes that they are cut into are a
run (`isRun_of_scan`), so that they are cut into the same lexemes by themselves. -/

namespace Redeploy.Syntax

/-! ## What is taken in code -/

/-- Which kind of lexeme code begins with, and how long it is, as far as names and space go. -/
inductive Takes (c : Char) (t : Text) : LexemeKind → Nat → Prop
  | lineBreak (hc : c = '\n') : Takes c t .lineBreak 1
  | blank (hc : isGap c = true) (hne : c ≠ '\n') : Takes c t .blank (runLength isGap (c :: t))
  | comment (hc : c = '#') : Takes c t .comment (runLength (fun d => d != '\n') (c :: t))
  | lastBackslash (hc : c = '\\') (ht : t = []) : Takes c t .continuation 1
  | continuation (hc : c = '\\') (hbreak : Delimiter.breakLength t ≠ 0) :
    Takes c t .continuation (1 + Delimiter.breakLength t)
  | word (hc : startsIdentifier c = true) :
    Takes c t (.token .word) (runLength continuesIdentifier (c :: t))
  | other {k : TokenKind} {n : Nat} (hk : k ≠ .word) (hc : c ≠ '\n') : Takes c t (.token k) n

section

variable {c : Char} {t : Text} {kind : LexemeKind} {n : Nat} {modes : List Mode}

theorem nextSymbol_ne_word (modes : List Mode) (t : Text) : (nextSymbol modes t).1 ≠ .token .word := by
  unfold nextSymbol
  simp only
  split <;> (repeat' split) <;> simp

theorem takes_nextInCode (modes : List Mode) (c : Char) (t : Text) :
    Takes c t (nextInCode modes (c :: t)).1 (nextInCode modes (c :: t)).2.1 := by
  unfold nextInCode
  simp only
  split
  · next hc => exact .lineBreak hc
  next hline =>
  split
  · next hgap => exact .blank hgap hline
  split
  · next hc => exact .comment hc
  split
  · next hc =>
    split
    · next ht => exact .lastBackslash hc (List.isEmpty_iff.1 ht)
    · split
      · exact .other (by simp) hline
      · next hbreak => exact .continuation hc hbreak
  split
  · exact .other (by simp) hline
  split
  · next hstart => exact .word hstart
  · split
    · have hword := nextSymbol_ne_word modes (c :: t)
      obtain ⟨k, hk⟩ := nextSymbol_isToken modes (c :: t)
      rw [hk] at hword ⊢
      exact .other (by simpa using hword) hline
    · exact .other (by split <;> simp) hline

theorem Takes.ne_content (h : Takes c t kind n) : kind ≠ .content := by
  cases h <;> simp

/-- The text of a run of characters of a class. -/
theorem cons_take_runLength {p : Char → Bool} (hc : p c = true) :
    c :: t.take (runLength p (c :: t) - 1) = (c :: t).takeWhile p := by
  rw [← take_runLength, ← runLength_pos hc]
  cases runLength p (c :: t) <;> simp

theorem head_behind_run {p : Char → Bool} (hc : p c = true) :
    ∀ d ∈ (t.drop (runLength p (c :: t) - 1)).head?, p d = false := by
  have hdrop : t.drop (runLength p (c :: t) - 1) = (c :: t).drop (runLength p (c :: t)) := by
    rw [← runLength_pos hc]
    cases runLength p (c :: t) <;> simp
  rw [hdrop]
  exact head_drop_runLength

/-- Lexemes that names are made of: words and points, and space of any kind. -/
def Lexeme.IsNamePart (l : Lexeme) : Prop :=
  ∀ k, l.kind = .token k → k = .word ∨ (k = .symbol ∧ l.text = ['.'])

/-- What is taken of a name is plain, unless it is a backslash that ends the script. -/
theorem Takes.isPlain (h : Takes c t kind n)
    (hpart : Lexeme.IsNamePart ⟨kind, c :: t.take (n - 1)⟩)
    (hlast : kind = .continuation → t.drop (n - 1) ≠ []) :
    Lexeme.IsPlain ⟨kind, c :: t.take (n - 1)⟩ := by
  have hall : ∀ (p : Char → Bool), ∀ d ∈ (c :: t).takeWhile p, p d = true := fun p =>
    List.all_eq_true.1 List.all_takeWhile
  cases h with
  | lineBreak hc =>
    subst hc
    exact .lineBreak
  | blank hc =>
    rw [cons_take_runLength hc]
    exact .blank (by simp [hc]) (hall _)
  | comment hc =>
    subst hc
    have htake := cons_take_runLength (c := '#') (t := t) (p := fun d => d != '\n') rfl
    refine .comment fun hmem => ?_
    have := hall (fun d => d != '\n') '\n' (htake ▸ List.mem_cons_of_mem _ hmem)
    simp at this
  | lastBackslash hc ht =>
    subst ht
    exact absurd rfl (hlast rfl)
  | continuation hc hbreak =>
    subst hc
    rw [Nat.add_sub_cancel_left]
    refine .continuation ?_
    unfold Delimiter.breakLength at hbreak ⊢
    split
    · simp
    · simp
    · simp at hbreak
  | word hc =>
    have hcontinues := continuesIdentifier_of_startsIdentifier hc
    rw [cons_take_runLength hcontinues]
    exact .word ⟨⟨c, by simp [hcontinues], hc⟩, hall _⟩
  | @other k n hk hc =>
    rcases hpart k rfl with rfl | ⟨rfl, htext⟩
    · exact absurd rfl hk
    · rw [show c :: t.take (n - 1) = ['.'] from htext]
      exact .point

/-- What is taken of a name ends in front of what is taken next. -/
theorem Takes.precedes {c' : Char} {t' w w' : Text} {kind' : LexemeKind} {n' : Nat} (h : Takes c t kind n)
    (h' : Takes c' t' kind' n') (hrest : t.drop (n - 1) = c' :: t')
    (hpart : ∀ k, kind = .token k → k = .word ∨ k = .symbol)
    (hsymbols : kind = .token .symbol → kind' ≠ .token .symbol) :
    Lexeme.Precedes ⟨kind, w⟩ ⟨kind', w'⟩ := by
  cases h with
  | lineBreak | lastBackslash | continuation => trivial
  | blank hc =>
    have hhead := head_behind_run hc c' (by rw [hrest]; rfl)
    rintro rfl
    cases h' with
    | blank hc' => simp [hhead] at hc'
  | comment hc =>
    subst hc
    have hhead := head_behind_run (p := fun d => d != '\n') rfl c' (by rw [hrest]; rfl)
    obtain rfl : c' = '\n' := by simpa using hhead
    cases h' with
    | lineBreak => rfl
    | blank _ hne | other _ hne => exact absurd rfl hne
    | comment hc' | lastBackslash hc' | continuation hc' => simp at hc'
    | word hc' => exact absurd hc' (by decide)
  | word hc =>
    have hhead := head_behind_run (continuesIdentifier_of_startsIdentifier hc) c' (by rw [hrest]; rfl)
    rintro rfl
    cases h' with
    | word hc' => simp [continuesIdentifier_of_startsIdentifier hc'] at hhead
    | other hk => exact hk rfl
  | @other k n hk =>
    obtain rfl := (hpart k rfl).resolve_left hk
    exact hsymbols rfl

end

/-! ## Runs -/

/-- The first lexeme of a scan in code, and what the scan goes on with. -/
theorem exists_of_scanWith_eq_cons {steps : Nat} {modes : List Mode} {t : Text} {l : Lexeme}
    {L : List Lexeme} (h : scanWith steps modes t = l :: L) (hcode : inCode modes = true) :
    ∃ steps' c t' n modes', t = c :: t' ∧ Takes c t' l.kind n ∧ l.text = c :: t'.take (n - 1) ∧
      scanWith steps' modes' (t'.drop (n - 1)) = L ∧
      (WellNested modes → LeavesCode modes (l.kind, n, modes')) := by
  cases steps with
  | zero => simp [scanWith] at h
  | succ steps =>
    cases t with
    | nil => simp [scanWith] at h
    | cons c t =>
      have htakes := takes_nextInCode modes c t
      rw [← nextLexeme_of_inCode hcode] at htakes
      simp only [scanWith, List.cons.injEq] at h
      obtain ⟨rfl, hrest⟩ := h
      exact ⟨steps, c, t, _, _, rfl, htakes, rfl, hrest, fun hnested =>
        leavesCode_nextLexeme hnested (c :: t)⟩

/-- Lexemes of a name in code, up to a word, are plain, and no two of them are one. -/
theorem isChain_of_scanWith {steps : Nat} {modes : List Mode} {t : Text} {L B : List Lexeme}
    (h : scanWith steps modes t = L ++ B) (hnested : WellNested modes) (hcode : inCode modes = true)
    (hpart : ∀ l ∈ L, l.IsNamePart)
    (hsymbols : L.IsChain fun l l' => l.kind = .token .symbol → l'.kind ≠ .token .symbol)
    (hlast : ∀ l ∈ L.getLast?, l.kind = .token .word) :
    (∀ l ∈ L, l.IsPlain) ∧ L.IsChain Lexeme.Precedes := by
  induction L generalizing steps modes t with
  | nil => exact ⟨by simp, List.isChain_nil⟩
  | cons l L ih =>
    obtain ⟨kind, w⟩ := l
    obtain ⟨_, c, t, n, modes', rfl, htakes, rfl, hrest, hleaves⟩ := exists_of_scanWith_eq_cons h hcode
    have hl := hpart _ (List.mem_cons_self ..)
    cases L with
    | nil =>
      obtain rfl : kind = .token .word := hlast _ rfl
      exact ⟨List.forall_mem_singleton.2 (htakes.isPlain hl (by simp)), List.isChain_singleton _⟩
    | cons l' L =>
      obtain ⟨kind', w'⟩ := l'
      have hcode' : inCode modes' = true := by
        refine (hleaves hnested).code ?_
        unfold keepsCode
        split
        · next k hk => rcases hl k hk with rfl | ⟨rfl, -⟩ <;> rfl
        · next hk => exact absurd hk htakes.ne_content
        · exact hcode
      obtain ⟨hplain, hchain⟩ := ih hrest (hleaves hnested).nested hcode'
        (fun l hl => hpart l (List.mem_cons_of_mem _ hl)) hsymbols.tail hlast
      obtain ⟨_, c', t', n', _, hleft, htakes', -⟩ := exists_of_scanWith_eq_cons hrest hcode'
      have hprecedes : Lexeme.Precedes ⟨kind, c :: t.take (n - 1)⟩ ⟨kind', w'⟩ :=
        htakes.precedes htakes' hleft (fun k hk => (hl k hk).imp_right And.left)
          (List.isChain_cons_cons.1 hsymbols).1
      exact ⟨List.forall_mem_cons.2 ⟨htakes.isPlain hl fun _ => by simp [hleft], hplain⟩,
        List.isChain_cons_cons.2 ⟨hprecedes, hchain⟩⟩

/-- Words are found in code alone. -/
theorem inCode_of_word {modes : List Mode} {t : Text} (h : (nextLexeme modes t).1 = .token .word) :
    inCode modes = true := by
  unfold nextLexeme at h
  split at h
  · unfold nextInString at h
    split at h <;> simp at h
  · unfold nextInFormat at h
    split at h <;> simp at h
  · unfold inCode
    split <;> simp_all

/-- The lexemes of a name in a script are a run. -/
theorem isRun_of_scan {source : Text} {A L B : List Lexeme} (h : scan source = A ++ (L ++ B))
    (hpart : ∀ l ∈ L, l.IsNamePart)
    (hsymbols : L.IsChain fun l l' => l.kind = .token .symbol → l'.kind ≠ .token .symbol)
    (hfirst : ∃ l ∈ L.head?, l.kind = .token .word) (hlast : ∃ l ∈ L.getLast?, l.kind = .token .word) :
    IsRun L := by
  obtain ⟨steps, modes, t, hscan, hnested⟩ := exists_of_scanWith_append h trivial
  have hcode : inCode modes = true := by
    obtain ⟨l, hl, hkind⟩ := hfirst
    obtain ⟨rest, rfl⟩ := List.head?_eq_some_iff.1 hl
    cases steps with
    | zero => simp [scanWith] at hscan
    | succ steps =>
      cases t with
      | nil => simp [scanWith] at hscan
      | cons c t =>
        simp only [scanWith, List.cons_append, List.cons.injEq] at hscan
        obtain ⟨rfl, -⟩ := hscan
        exact inCode_of_word hkind
  obtain ⟨hplain, hchain⟩ := isChain_of_scanWith hscan hnested hcode hpart hsymbols fun l hl => by
    obtain ⟨l', hl', hkind⟩ := hlast
    rwa [Option.mem_unique hl hl']
  exact ⟨hplain, hchain, hfirst, hlast⟩

/-! ## Rows of tokens -/

theorem token?_of_kind {p : Placed} {kind : TokenKind} (h : p.lexeme.kind = .token kind) :
    p.token? = some (p.token kind) := by
  rw [Placed.token?, h]
  rfl

theorem token?_of_silent {p : Placed} (h : ∀ kind, p.lexeme.kind ≠ .token kind) : p.token? = none := by
  unfold Placed.token?
  split
  · next kind hkind => exact absurd hkind (h kind)
  · rfl

/-- The lexemes of some tokens that follow each other without a mark, behind a token. -/
theorem exists_of_layout_eq_row {ps : List Placed} {s : LineState} {ts R : List Token}
    (h : layout s ps = ts ++ R) (hprev : s.prev ≠ none) (hne : ts ≠ [])
    (hts : ∀ t ∈ ts, t.isLayout = false) : ∃ L q B kind, ps = L ++ q :: B ∧
      q.lexeme.kind = .token kind ∧ (L ++ [q]).filterMap Placed.token? = ts := by
  induction ps generalizing s ts with
  | nil =>
    obtain ⟨t, ts, rfl⟩ := List.exists_cons_of_ne_nil hne
    obtain ⟨x, hx⟩ := Option.ne_none_iff_exists'.1 hprev
    unfold layout at h
    rw [hx] at h
    have hmem : t ∈ (LineState.lineEnd x s.blocks 0).1 := by
      simp only at h
      simp [h]
    have hmark := (LineState.isMark_of_mem_lineEnd hmem).1.1
    simp [hts t (List.mem_cons_self ..)] at hmark
  | cons q ps ih =>
    obtain ⟨t, ts, rfl⟩ := List.exists_cons_of_ne_nil hne
    obtain ⟨ht, hrest⟩ := List.forall_mem_cons.1 hts
    unfold layout at h
    split at h
    · next kind hkind =>
      have h' : s.beforeToken.1 ++ q.token kind ::
        layout (s.beforeToken.2.afterToken (q.token kind)) ps = t :: (ts ++ R) := h
      have hnone : s.beforeToken.1 = [] := by
        refine List.eq_nil_iff_forall_not_mem.2 fun m hm => ?_
        -- a mark would come first
        obtain ⟨a, ms, hms⟩ := List.exists_cons_of_ne_nil (List.ne_nil_of_mem hm)
        rw [hms] at h'
        obtain ⟨rfl, -⟩ := List.cons.inj h'
        obtain ⟨-, -, hmark, -⟩ := LineState.mem_beforeToken (s := s) (m := a) (by simp [hms])
        simp [hmark.1] at ht
      rw [hnone] at h'
      obtain ⟨rfl, hlater⟩ := List.cons.inj h'
      by_cases hnil : ts = []
      · subst hnil
        exact ⟨[], q, ps, kind, rfl, hkind, by simp [token?_of_kind hkind]⟩
      · obtain ⟨L, r, B, kind', rfl, hr, hL⟩ := ih hlater (by simp [LineState.afterToken]) hnil hrest
        exact ⟨q :: L, r, B, kind', rfl, hr, by
          rw [List.cons_append, List.filterMap_cons_some (token?_of_kind hkind), hL]⟩
    · next hsilent =>
      obtain ⟨L, r, B, kind, rfl, hr, hL⟩ := ih h (by rwa [s.prev_afterSilent]) hne hts
      exact ⟨q :: L, r, B, kind, rfl, hr, by
        rw [List.cons_append, List.filterMap_cons_none (token?_of_silent hsilent), hL]⟩

/-- The lexemes of some tokens that follow each other without a mark, from the first one to the last. -/
theorem exists_lexemes_of_row {ps : List Placed} {ts : List Token} (h : ts <:+: tokensOf ps)
    (hne : ts ≠ []) (hts : ∀ t ∈ ts, t.isLayout = false) : ∃ A L B, ps = A ++ (L ++ B) ∧
      L.filterMap Placed.token? = ts ∧ (∃ p ∈ L.head?, ∃ kind, p.lexeme.kind = .token kind) ∧
      ∃ p ∈ L.getLast?, ∃ kind, p.lexeme.kind = .token kind := by
  obtain ⟨X, R, hrow⟩ := h
  obtain ⟨t, ts, rfl⟩ := List.exists_cons_of_ne_nil hne
  obtain ⟨ht, hrest⟩ := List.forall_mem_cons.1 hts
  rw [List.append_assoc] at hrow
  obtain ⟨A, p, B, s, hlaid, -⟩ := exists_of_layout_eq (R := ts ++ R) hrow.symm ht
  obtain rfl := hlaid.lexemes
  have hp : p.token? = some t := (token?_of_kind hlaid.kind).trans (congrArg some hlaid.token)
  by_cases hnil : ts = []
  · subst hnil
    exact ⟨A, [p], B, rfl, by simp [hp], ⟨p, rfl, _, hlaid.kind⟩, ⟨p, rfl, _, hlaid.kind⟩⟩
  · obtain ⟨L, q, B', kind, rfl, hq, hL⟩ :=
      exists_of_layout_eq_row hlaid.rest (by simp [hlaid.prev]) hnil hrest
    refine ⟨A, p :: (L ++ [q]), B', by simp, by rw [List.filterMap_cons_some hp, hL],
      ⟨p, rfl, _, hlaid.kind⟩, ⟨q, ?_, _, hq⟩⟩
    rw [← List.cons_append]
    exact List.getLast?_concat

/-- Tokens of a script that follow each other without a mark are the tokens of some of its lexemes. -/
theorem Mended.exists_row {source : Text} {ps : List Placed} (h : Mended source ps) {ts : List Token}
    (hrow : ts <:+: tokensOf ps) (hne : ts ≠ []) (hts : ∀ t ∈ ts, t.isLayout = false) :
    ∃ A ls B, scan source = A ++ (ls ++ B) ∧ ts = tokensFrom (pointAt (A.flatMap Lexeme.text)) ls ∧
      (∃ l ∈ ls.head?, ∃ kind, l.kind = .token kind) ∧ ∃ l ∈ ls.getLast?, ∃ kind, l.kind = .token kind := by
  obtain ⟨A, L, B, rfl, hL, hfirst, hlast⟩ := exists_lexemes_of_row hrow hne hts
  have hwritten : L.filter (fun p => p.lexeme.text != []) = L := by
    refine List.filter_eq_self.2 fun p hp => ?_
    have hkind : p.lexeme.kind ≠ .token .newline := by
      intro hnewline
      have hmem : p.token .newline ∈ ts :=
        hL ▸ List.mem_filterMap.2 ⟨p, hp, token?_of_kind hnewline⟩
      simpa [Token.isLayout, Placed.token] using hts _ hmem
    simpa using h.text_ne_nil (by simp [hp]) hkind
  have hplaced := h.written
  rw [List.filter_append, List.filter_append, hwritten] at hplaced
  have hscan : scan source = (A.filter fun p => p.lexeme.text != []).map Placed.lexeme ++
      (L.map Placed.lexeme ++ (B.filter fun p => p.lexeme.text != []).map Placed.lexeme) := by
    have := congrArg (List.map Placed.lexeme) hplaced
    rw [placedLexemes, map_lexeme_placeFrom, List.map_append, List.map_append] at this
    exact this.symm
  refine ⟨_, _, _, hscan, ?_, ?_, ?_⟩
  · -- the lexemes stand where they do by themselves
    rw [placedLexemes, hscan, placeFrom_append, placeFrom_append] at hplaced
    have hrest := (List.append_inj hplaced (by rw [length_placeFrom, List.length_map])).2
    rw [tokensFrom, ← hL]
    exact congrArg (List.filterMap Placed.token?)
      (List.append_inj hrest (by rw [length_placeFrom, List.length_map])).1
  · obtain ⟨p, hp, kind, hkind⟩ := hfirst
    exact ⟨p.lexeme, by rw [List.head?_map, Option.mem_def.1 hp]; rfl, kind, hkind⟩
  · obtain ⟨p, hp, kind, hkind⟩ := hlast
    exact ⟨p.lexeme, by rw [List.getLast?_map, Option.mem_def.1 hp]; rfl, kind, hkind⟩

end Redeploy.Syntax
