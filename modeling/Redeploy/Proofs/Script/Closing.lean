import Redeploy.Proofs.Script.Decoding
import Redeploy.Proofs.Syntax.Code

set_option autoImplicit false

/-! # Where a string is closed

The scan takes the content of a string in one lexeme or in several, and in each of them a backslash takes
along what is behind it. Wherever a lexeme ends, what it has taken is a row of pieces, and the closing
delimiter begins at none of them (`exists_of_scanWith_quoted`): a step of the scan goes from one piece to
the next, or into a line break that a backslash hides (`Skips`). This holds of strings without
interpolations, and only if they have no escape by name or backslashes are ordinary characters. -/

namespace Redeploy.Syntax

open Delimiter (breakLength)
open Literal (Piece isQuote unescape?)

variable {d : Delimiter}

/-! ## Pieces of a body -/

/-- The closing delimiter begins at none of the pieces of a body that stands in front of a text. -/
def Unclosed (d : Delimiter) (u : Text) (pieces : List Piece) : Prop :=
  ∀ behind ∈ pieces.tails, behind ≠ [] → d.closes (behind.flatMap Piece.text ++ u) = false

theorem unclosed_nil (d : Delimiter) (u : Text) : Unclosed d u [] := by
  intro behind hbehind hne
  exact absurd (List.mem_singleton.1 hbehind) hne

theorem Unclosed.cons {u : Text} {p : Piece} {pieces : List Piece} (h : Unclosed d u pieces)
    (hp : d.closes (p.text ++ (pieces.flatMap Piece.text ++ u)) = false) : Unclosed d u (p :: pieces) := by
  intro behind hbehind hne
  rcases List.mem_cons.1 (List.tails_cons p pieces ▸ hbehind) with rfl | hbehind
  · rwa [List.flatMap_cons, List.append_assoc]
  · exact h behind hbehind hne

theorem Unclosed.tail {u : Text} {p : Piece} {pieces : List Piece} (h : Unclosed d u (p :: pieces)) :
    Unclosed d u pieces :=
  fun behind hbehind => h behind (List.tails_cons p pieces ▸ List.mem_cons_of_mem _ hbehind)

theorem Unclosed.append {u : Text} {pieces pieces' : List Piece}
    (h : Unclosed d (pieces'.flatMap Piece.text ++ u) pieces) (h' : Unclosed d u pieces') :
    Unclosed d u (pieces ++ pieces') := by
  induction pieces with
  | nil => exact h'
  | cons p pieces ih =>
    refine (ih h.tail).cons ?_
    have hp := h (p :: pieces) (List.tails_cons p pieces ▸ List.mem_cons_self ..) (List.cons_ne_nil _ _)
    simpa only [List.flatMap_cons, List.flatMap_append, List.append_assoc] using hp

/-- A body whose pieces the scan takes as they are: that of a raw string, or one that is read. -/
def Readable (d : Delimiter) (body : Text) : Prop :=
  d.raw = true ∨ (unescape? body).isSome = true

theorem Readable.of_plain {c : Char} (hc : c ≠ '\\') {body : Text} (h : Readable d (c :: body)) :
    Readable d body :=
  h.imp_right fun hread => by rwa [Literal.unescape?_cons hc, Option.isSome_map] at hread

theorem Readable.of_escape {c : Char} {body : Text} (h : Readable d ('\\' :: c :: body)) :
    (d.raw = true ∨ c ≠ 'N') ∧ Readable d body := by
  rcases h with hraw | hread
  · exact ⟨.inl hraw, .inl hraw⟩
  · rw [Literal.unescape?_escape] at hread
    refine ⟨.inr ?_, .inr ?_⟩
    · rintro rfl
      simp [Literal.escapeValue?] at hread
    · cases hvalue : Literal.escapeValue? c with
      | none => simp [hvalue] at hread
      | some value => simpa [hvalue] using hread

/-! ## One piece of content -/

theorem closes_eq_false {c : Char} (hc : c ≠ d.quote) (t : Text) : d.closes (c :: t) = false := by
  obtain ⟨n, hn⟩ : ∃ n, d.size = n + 1 := ⟨d.size - 1, by have := d.size_pos; omega⟩
  simp [Delimiter.closes, hn, List.replicate_succ, List.isPrefixOf, hc.symm]

/-- How many characters the scan still passes over behind a piece: none, or those of a line break. -/
def Skips (skip : Nat) (t : Text) : Prop := skip = 0 ∨ skip = breakLength t

/-- A line break begins with a line feed or a carriage return, and is no longer than what remains of it
    behind that. -/
theorem breakLength_cons (c : Char) (t : Text) : (breakLength (c :: t) = 0 ∧ c ≠ '\n') ∨
    ∃ skip, breakLength (c :: t) = skip + 1 ∧ (c = '\n' ∨ c = '\r') ∧ Skips skip t := by
  unfold breakLength
  split
  · next heq =>
    obtain ⟨rfl, rfl⟩ := List.cons.inj heq
    exact .inr ⟨0, rfl, .inl rfl, .inl rfl⟩
  · next heq =>
    obtain ⟨rfl, rfl⟩ := List.cons.inj heq
    exact .inr ⟨1, rfl, .inr rfl, .inr rfl⟩
  · next hline _ => exact .inl ⟨rfl, fun hc => hline t (by rw [hc])⟩

/-- What a backslash takes along: a character, with a line break behind it or within it, or nothing that
    matters. -/
theorem escape_cases (hquote : isQuote d.quote = true) {c : Char} {t : Text} (hc : d.raw = true ∨ c ≠ 'N')
    {skip : Nat}
    (hskip : skip = if d.raw then d.rawEscapeLength (c :: t) else Delimiter.escapeLength (c :: t)) :
    (∃ n, skip = n + 1 ∧ Skips n t) ∨ (skip = 0 ∧ c ≠ d.quote ∧ c ≠ '\\' ∧ c ≠ '\n') := by
  have hbreak : skip = breakLength (c :: t) → c ≠ d.quote → c ≠ '\\' →
      (∃ n, skip = n + 1 ∧ Skips n t) ∨ (skip = 0 ∧ c ≠ d.quote ∧ c ≠ '\\' ∧ c ≠ '\n') := by
    rintro rfl hne hback
    rcases breakLength_cons c t with ⟨hzero, hline⟩ | ⟨n, hn, -, hskips⟩
    · exact .inr ⟨hzero, hne, hback, hline⟩
    · exact .inl ⟨n, hn, hskips⟩
  by_cases hraw : d.raw = true
  · rw [if_pos hraw, Delimiter.rawEscapeLength] at hskip
    split at hskip
    · exact .inl ⟨breakLength t, by omega, .inr rfl⟩
    · next hne =>
      simp only [Bool.or_eq_true, decide_eq_true_eq, not_or] at hne
      exact hbreak hskip hne.1 hne.2
  · rw [if_neg hraw] at hskip
    unfold Delimiter.escapeLength at hskip
    split at hskip
    · next heq =>
      exact absurd (List.cons.inj heq).1 (hc.resolve_left hraw)
    · next heq =>
      obtain ⟨rfl, rfl⟩ := List.cons.inj heq
      split at hskip
      · exact .inl ⟨0, hskip, .inl rfl⟩
      · next hne =>
        simp only [Bool.or_eq_true, decide_eq_true_eq, not_or] at hne
        refine hbreak hskip ?_ hne.2
        rintro rfl
        rcases (show d.quote = '"' ∨ d.quote = '\'' by simpa [isQuote] using hquote) with h | h
        · exact hne.1.1 h
        · exact hne.1.2 h
    · next heq => simp at heq

/-- The content of a string goes on behind a character that is no backslash. -/
theorem contentLength_plain (hquote : isQuote d.quote = true) (hformat : d.format = false) {c : Char}
    (hc : c ≠ '\\') {t : Text} {skip n : Nat} {first : Bool} {e : ContentEnd} (hskip : Skips skip (c :: t))
    (h : contentLength d skip first (c :: t) = (n + 1, e)) : d.closes (c :: t) = false ∧
      ∃ skip' first', Skips skip' t ∧ contentLength d skip' first' t = (n, e) := by
  have hmore : ∀ {r : Nat × ContentEnd}, ContentEnd.oneMore r = (n + 1, e) → r = (n, e) := by
    rintro ⟨m, e'⟩ hr
    simpa [ContentEnd.oneMore] using hr
  cases skip with
  | zero =>
    rw [contentLength] at h
    split at h
    · simp at h
    · next hcloses =>
      simp only [hformat, if_false, Bool.false_and, Bool.false_eq_true] at h
      split at h
      · simp at h
      · exact ⟨by simpa using hcloses, 0, false, .inl rfl, hmore h⟩
  | succ skip =>
    rw [contentLength] at h
    rcases breakLength_cons c t with ⟨hzero, -⟩ | ⟨m, hm, hline, hskips⟩
    · rcases hskip with hskip | hskip <;> omega
    · obtain rfl : skip = m := by rcases hskip with hskip | hskip <;> omega
      refine ⟨closes_eq_false ?_ t, skip, first, hskips, hmore h⟩
      rintro rfl
      rcases hline with h | h <;> simp [isQuote, h] at hquote

/-- The content of a string goes on behind a backslash and the character that it takes along. -/
theorem contentLength_escape (hquote : isQuote d.quote = true) (hformat : d.format = false) {c : Char}
    (hc : d.raw = true ∨ c ≠ 'N') {t : Text} {skip n : Nat} {first : Bool} {e : ContentEnd}
    (hskip : Skips skip ('\\' :: c :: t))
    (h : contentLength d skip first ('\\' :: c :: t) = (n, e)) (hn : n ≠ 0) :
    d.closes ('\\' :: c :: t) = false ∧ ∃ m skip' first', n = m + 2 ∧ Skips skip' t ∧
      contentLength d skip' first' t = (m, e) := by
  have hback : '\\' ≠ d.quote := by
    intro h
    simp [isQuote, ← h] at hquote
  have hcloses := closes_eq_false hback (c :: t)
  obtain rfl : skip = 0 := by
    rcases hskip with hskip | hskip
    · exact hskip
    · exact hskip
  refine ⟨hcloses, ?_⟩
  obtain ⟨first', hstep⟩ : ∃ first', ContentEnd.oneMore (contentLength d
      (if d.raw then d.rawEscapeLength (c :: t) else Delimiter.escapeLength (c :: t)) first' (c :: t)) =
        (n, e) := by
    simp only [contentLength, hcloses, Bool.false_eq_true, if_false, if_true] at h
    split at h
    · next hraw => exact ⟨first, by simpa [hraw] using h⟩
    · next hraw => exact ⟨true, by simpa [hraw] using h⟩
  rcases escape_cases hquote hc rfl with ⟨m, hm, hskips⟩ | ⟨hzero, hne, hback', hline⟩
  · rw [hm, contentLength] at hstep
    obtain ⟨rfl, rfl⟩ := Prod.mk.inj hstep
    exact ⟨_, m, first', rfl, hskips, rfl⟩
  · have hplain : contentLength d 0 first' (c :: t) = ContentEnd.oneMore (contentLength d 0 false t) := by
      simp [contentLength, closes_eq_false hne t, hback', hformat, hline]
    rw [hzero, hplain] at hstep
    obtain ⟨rfl, rfl⟩ := Prod.mk.inj hstep
    exact ⟨_, 0, false, rfl, .inl rfl, rfl⟩

/-- What the scan takes of the content of a string at once is a row of pieces, and the string is not
    closed at any of them. What is behind it begins with a piece. -/
theorem exists_pieces_of_contentLength (hquote : isQuote d.quote = true) (hformat : d.format = false)
    {a b u : Text} (hu : u ≠ []) (hread : Readable d (a ++ b)) {skip : Nat} {first : Bool} {e : ContentEnd}
    (hskip : Skips skip (a ++ (b ++ u))) (h : contentLength d skip first (a ++ (b ++ u)) = (a.length, e)) :
    Readable d b ∧ ∃ pieces, a = pieces.flatMap Piece.text ∧ Unclosed d (b ++ u) pieces := by
  match a with
  | [] => exact ⟨hread, [], rfl, unclosed_nil _ _⟩
  | c :: a =>
    by_cases hc : c = '\\'
    · subst hc
      match a with
      | [] =>
        -- a backslash is never taken without the character behind it
        have hstuck : ∀ {c t}, b ++ u = c :: t → ¬ (d.raw = true ∨ c ≠ 'N') := by
          intro c t heq hname
          rw [heq] at h hskip
          obtain ⟨-, m, _, _, hlength, -⟩ := contentLength_escape hquote hformat hname hskip h (by simp)
          simp at hlength
        cases b with
        | nil =>
          obtain ⟨c, t, rfl⟩ := List.exists_cons_of_ne_nil hu
          exact absurd (hread.imp_right fun h => by simp [unescape?] at h) (hstuck rfl)
        | cons c b => exact absurd (Readable.of_escape hread).1 (hstuck rfl)
      | c :: a =>
        obtain ⟨hname, hrest⟩ := Readable.of_escape hread
        obtain ⟨hcloses, m, skip', first', hlength, hskip', h'⟩ :=
          contentLength_escape hquote hformat hname hskip h (by simp)
        obtain rfl : m = a.length := by simpa using hlength.symm
        obtain ⟨hb, pieces, rfl, hunclosed⟩ :=
          exists_pieces_of_contentLength hquote hformat hu hrest hskip' h'
        exact ⟨hb, .escape c :: pieces, rfl, hunclosed.cons hcloses⟩
    · obtain ⟨hcloses, skip', first', hskip', h'⟩ := contentLength_plain hquote hformat hc hskip h
      obtain ⟨hb, pieces, rfl, hunclosed⟩ :=
        exists_pieces_of_contentLength hquote hformat hu (Readable.of_plain hc hread) hskip' h'
      exact ⟨hb, .plain c hc :: pieces, rfl, hunclosed.cons hcloses⟩

/-! ## The scan of a string -/

theorem closes_eq_false_of_contentLength {first : Bool} {t : Text} {n : Nat} {e : ContentEnd}
    (h : contentLength d 0 first t = (n + 1, e)) : d.closes t = false := by
  cases t with
  | nil => simp [contentLength] at h
  | cons c t =>
    rw [contentLength] at h
    split at h
    · simp at h
    · next hcloses => simpa using hcloses

theorem contentLength_ne_brace (hformat : d.format = false) {skip : Nat} {first : Bool} {t : Text} :
    (contentLength d skip first t).2 ≠ .brace := by
  induction t generalizing skip first with
  | nil => cases skip <;> simp [contentLength]
  | cons c t ih =>
    cases skip with
    | succ skip =>
      rw [contentLength]
      exact ih
    | zero =>
      rw [contentLength]
      repeat' split
      all_goals first | exact ih | simp_all

/-- The next lexeme of a string without interpolations: some content, the closing delimiter, or something
    that cannot stand there. -/
theorem nextInString_cases (hformat : d.format = false) (modes : List Mode) (t : Text) :
    (∃ n e, contentLength d 0 true t = (n + 1, e) ∧
      nextInString d modes t = (.content, n + 1, .quoted d :: modes)) ∨
    (d.closes t = true ∧ nextInString d modes t = (.token .stringEnd, d.size, modes)) ∨
    (nextInString d modes t).1 = .token .bad := by
  unfold nextInString
  have hbrace := @contentLength_ne_brace d hformat 0 true t
  split
  · next hlength => exact .inr (.inl ⟨(head_of_contentLength hlength).1 rfl, rfl⟩)
  · next hlength => exact absurd (congrArg Prod.snd hlength) hbrace
  · exact .inr (.inr rfl)
  · next n e hquote hopen hbroken hlength =>
    cases n with
    | succ n => exact .inl ⟨n, e, hlength, rfl⟩
    | zero => cases e <;> simp_all

/-- What the scan takes for the content of a string in front of a text: the string is not closed at once,
    and if the pieces are taken as they are, it is closed at none of them. -/
structure IsContent (d : Delimiter) (u body : Text) : Prop where
  head : body ≠ [] → d.closes (body ++ u) = false
  pieces : Readable d body → ∃ pieces : List Piece, body = pieces.flatMap Piece.text ∧ Unclosed d u pieces

/-- A string without interpolations is scanned up to its closing delimiter. -/
theorem exists_of_scanWith_quoted (hquote : isQuote d.quote = true) (hformat : d.format = false)
    {steps : Nat} {modes : List Mode} {t : Text} {G H : List Lexeme} {l : Lexeme} {k : TokenKind}
    (h : scanWith steps (.quoted d :: modes) t = G ++ l :: H)
    (hG : ∀ g ∈ G, ∀ kind, g.kind ≠ .token kind) (hl : l.kind = .token k) (hk : k ≠ .bad) :
    k = .stringEnd ∧ l.text = List.replicate d.size d.quote ∧
      ∃ u, u ≠ [] ∧ t = G.flatMap Lexeme.text ++ u ∧ IsContent d u (G.flatMap Lexeme.text) := by
  induction G generalizing steps t with
  | nil =>
    cases steps with
    | zero => simp [scanWith] at h
    | succ steps =>
      cases t with
      | nil => simp [scanWith] at h
      | cons c t =>
        have hnext : nextLexeme (.quoted d :: modes) (c :: t) = nextInString d modes (c :: t) := rfl
        simp only [scanWith, hnext, List.nil_append, List.cons.injEq] at h
        obtain ⟨rfl, -⟩ := h
        simp only at hl
        rcases nextInString_cases hformat modes (c :: t) with ⟨n, e, -, heq⟩ | ⟨hcloses, heq⟩ | hbad
        · simp [heq] at hl
        · rw [heq] at hl ⊢
          obtain rfl : k = .stringEnd := by simpa using hl.symm
          obtain ⟨rest, hrest⟩ := List.isPrefixOf_iff_prefix.1 hcloses
          refine ⟨rfl, ?_, c :: t, List.cons_ne_nil _ _, rfl, by simp,
            fun _ => ⟨[], rfl, unclosed_nil d _⟩⟩
          have htake := cons_take hrest.symm (List.ne_nil_of_length_pos
            (by rw [List.length_replicate]; exact d.size_pos))
          rwa [List.length_replicate] at htake
        · exact absurd (LexemeKind.token.inj (hl.symm.trans hbad)) hk
  | cons g G ih =>
    cases steps with
    | zero => simp [scanWith] at h
    | succ steps =>
      cases t with
      | nil => simp [scanWith] at h
      | cons c t =>
        have hnext : nextLexeme (.quoted d :: modes) (c :: t) = nextInString d modes (c :: t) := rfl
        simp only [scanWith, hnext, List.cons_append, List.cons.injEq] at h
        obtain ⟨rfl, h⟩ := h
        have hkind := hG _ (List.mem_cons_self ..)
        simp only at hkind
        rcases nextInString_cases hformat modes (c :: t) with ⟨n, e, hlength, heq⟩ | ⟨-, heq⟩ | hbad
        · rw [heq] at h ⊢
          rw [Nat.add_sub_cancel] at h ⊢
          obtain ⟨rfl, hclosing, u, hu, hrest, hcontent⟩ := ih h fun g hg => hG g (List.mem_cons_of_mem _ hg)
          have hdrop : t.drop n ≠ [] := by
            rw [hrest]
            exact List.append_ne_nil_of_right_ne_nil _ hu
          have htake : (t.take n).length = n := List.length_take_of_le
            (Nat.le_of_lt (Nat.lt_of_not_le fun hle => hdrop (List.drop_eq_nil_of_le hle)))
          have htext : c :: t = (c :: t.take n) ++ (G.flatMap Lexeme.text ++ u) := by
            rw [← hrest, List.cons_append, List.take_append_drop]
          rw [List.flatMap_cons]
          refine ⟨rfl, hclosing, u, hu, by rw [List.append_assoc]; exact htext, fun _ => ?_, fun hreadable => ?_⟩
          · rw [List.append_assoc]
            exact htext ▸ closes_eq_false_of_contentLength hlength
          · rw [htext] at hlength
            obtain ⟨hreadable', pieces, ha, hunclosed⟩ := exists_pieces_of_contentLength hquote hformat hu
              hreadable (.inl rfl) (by rw [hlength, List.length_cons, htake])
            obtain ⟨pieces', hpieces', hunclosed'⟩ := hcontent.pieces hreadable'
            refine ⟨pieces ++ pieces', ?_, .append (hpieces' ▸ hunclosed) hunclosed'⟩
            rw [List.flatMap_append, hpieces', ← ha]
        · rw [heq] at hkind
          exact absurd rfl (hkind _)
        · exact absurd hbad (hkind _)

theorem nextSymbol_ne_stringStart (modes : List Mode) (t : Text) :
    (nextSymbol modes t).1 ≠ .token .stringStart := by
  unfold nextSymbol
  simp only
  split <;> (repeat' split) <;> simp

/-- Where a string is opened, its content follows. -/
theorem exists_of_nextLexeme_stringStart {modes : List Mode} {t : Text}
    (h : (nextLexeme modes t).1 = .token .stringStart) : ∃ n d outer,
      Delimiter.opening? t = some (n, d) ∧
        nextLexeme modes t = (.token .stringStart, n, .quoted d :: outer) := by
  unfold nextLexeme at h ⊢
  split at h
  · unfold nextInString at h
    split at h <;> simp at h
  · unfold nextInFormat at h
    split at h <;> simp at h
  · unfold nextInCode at h ⊢
    split at h
    · simp at h
    simp only at h ⊢
    split at h
    · simp at h
    next hline =>
    split at h
    · simp at h
    next hgap =>
    split at h
    · simp at h
    next hhash =>
    split at h
    · split at h
      · simp at h
      · split at h <;> simp at h
    next hback =>
    split at h
    · next n d hopening =>
      exact ⟨n, d, _, hopening, by simp only [hline, hgap, hhash, hback, if_false]; rfl⟩
    · split at h
      · simp at h
      · split at h
        · exact absurd h (nextSymbol_ne_stringStart _ _)
        · split at h <;> simp at h

/-- Between two tokens of a script, the first of which opens a string, stands the content of the string up
    to its closing delimiter, unless it has interpolations. -/
theorem exists_of_scan_string {source : Text} {A G H : List Lexeme} {o l : Lexeme} {k : TokenKind}
    (h : scan source = A ++ o :: (G ++ l :: H)) (ho : o.kind = .token .stringStart)
    (hG : ∀ g ∈ G, ∀ kind, g.kind ≠ .token kind) (hl : l.kind = .token k) (hk : k ≠ .bad) :
    ∃ marker d, o.text = marker ++ List.replicate d.size d.quote ∧ Marks marker d ∧
      (isQuote d.quote = true → d.format = false → k = .stringEnd ∧
        l.text = List.replicate d.size d.quote ∧ ∃ u, IsContent d u (G.flatMap Lexeme.text)) := by
  obtain ⟨steps, modes, t, hscan, -⟩ := exists_of_scanWith_append h trivial
  cases steps with
  | zero => simp [scanWith] at hscan
  | succ steps =>
    cases t with
    | nil => simp [scanWith] at hscan
    | cons c t =>
      simp only [scanWith, List.cons.injEq] at hscan
      obtain ⟨rfl, hrest⟩ := hscan
      obtain ⟨n, d, outer, hopening, hnext⟩ := exists_of_nextLexeme_stringStart ho
      obtain ⟨marker, rest, htext, rfl, hmarks⟩ := exists_of_opening? hopening
      refine ⟨marker, d, ?_, hmarks, fun hquote hformat => ?_⟩
      · rw [hnext]
        refine cons_take htext ?_
        have hpos := d.size_pos
        simp only [ne_eq, List.append_eq_nil_iff, List.replicate_eq_nil_iff, not_and]
        omega
      · rw [hnext] at hrest
        obtain ⟨rfl, hclosing, u, -, -, hcontent⟩ := exists_of_scanWith_quoted hquote hformat hrest hG hl hk
        exact ⟨rfl, hclosing, u, hcontent⟩

end Redeploy.Syntax
