import Redeploy.Proofs.Syntax.Place
import Redeploy.Proofs.Syntax.Scan

set_option autoImplicit false

/-! # Cutting a text by itself

Outside strings and interpolations, how a piece of a text is cut into lexemes does not depend on the
text in front of it, and only on the first character of the text behind it. `Cuts` says this of a piece
and its lexemes, for the texts that may follow; pieces that are cut by themselves make up texts that
are. Where such a piece stands tells the tokens that its lexemes are (`tokensFrom`). -/

namespace Redeploy.Syntax

/-! ## Outside strings and interpolations -/

/-- Only brackets are open. -/
def Plain (modes : List Mode) : Prop := ∀ m ∈ modes, m = .bracket

namespace Plain

variable {modes : List Mode}

theorem nil : Plain [] := by
  simp [Plain]

theorem bracket (h : Plain modes) : Plain (.bracket :: modes) := by
  simpa [Plain] using h

theorem noteProgress (h : Plain modes) (isWord : Bool) : noteProgress isWord modes = modes := by
  cases modes with
  | nil => rfl
  | cons m modes =>
    obtain rfl : m = .bracket := h m (List.mem_cons_self ..)
    rfl

theorem nextLexeme (h : Plain modes) (t : Text) : nextLexeme modes t = nextInCode modes t := by
  cases modes with
  | nil => rfl
  | cons m modes =>
    obtain rfl : m = .bracket := h m (List.mem_cons_self ..)
    rfl

end Plain

/-- Wherever only brackets are open and a text of some kind follows, a piece of a text is cut into some
    lexemes, and the same brackets are open behind it. -/
def Cuts (P : Text → Prop) (t : Text) (ls : List Lexeme) : Prop :=
  ∀ (modes : List Mode) (u : Text) (steps : Nat), Plain modes → P u → (t ++ u).length ≤ steps →
    ∃ rest, u.length ≤ rest ∧ scanWith steps modes (t ++ u) = ls ++ scanWith rest modes u

/-- A text that begins with one of some characters. -/
def Begins (cs : List Char) (u : Text) : Prop := ∃ c ∈ cs, u.head? = some c

section

variable {P Q : Text → Prop} {t u : Text} {ls ms : List Lexeme}

theorem Begins.mono {cs ds : List Char} (h : Begins cs u) (hsub : cs ⊆ ds) : Begins ds u :=
  h.imp fun _ hc => ⟨hsub hc.1, hc.2⟩

theorem begins_cons {cs : List Char} {c : Char} (hc : c ∈ cs) (u : Text) : Begins cs (c :: u) :=
  ⟨c, hc, rfl⟩

theorem Cuts.mono (h : Cuts P t ls) (himp : ∀ u, Q u → P u) : Cuts Q t ls :=
  fun modes u steps hplain hQ hsteps => h modes u steps hplain (himp u hQ) hsteps

/-- A piece, and a piece that may follow it. -/
theorem Cuts.append (h : Cuts P t ls) (h' : Cuts Q u ms) (himp : ∀ v, Q v → P (u ++ v)) :
    Cuts Q (t ++ u) (ls ++ ms) := by
  intro modes v steps hplain hQ hsteps
  rw [List.append_assoc] at hsteps ⊢
  obtain ⟨rest, hrest, hcut⟩ := h modes (u ++ v) steps hplain (himp v hQ) hsteps
  obtain ⟨rest', hrest', hcut'⟩ := h' modes v rest hplain hQ hrest
  exact ⟨rest', hrest', by rw [hcut, hcut', List.append_assoc]⟩

/-- A piece that is one lexeme. -/
theorem scanWith_lexeme {modes modes' : List Mode} {kind : LexemeKind} {steps : Nat} (ht : t ≠ [])
    (hsteps : (t ++ u).length ≤ steps) (h : nextLexeme modes (t ++ u) = (kind, t.length, modes')) :
    ∃ rest, u.length ≤ rest ∧
      scanWith steps modes (t ++ u) = ⟨kind, t⟩ :: scanWith rest modes' u := by
  have hpos := List.length_pos_iff.2 ht
  rw [List.length_append] at hsteps
  obtain ⟨steps, rfl⟩ : ∃ n, steps = n + 1 := ⟨steps - 1, by omega⟩
  exact ⟨steps, by omega, scanWith_cons ht h⟩

theorem cuts_lexeme {kind : LexemeKind} (ht : t ≠ [])
    (h : ∀ modes u, Plain modes → P u → nextInCode modes (t ++ u) = (kind, t.length, modes)) :
    Cuts P t [⟨kind, t⟩] := by
  intro modes u steps hplain hP hsteps
  refine scanWith_lexeme ht hsteps ?_
  rw [hplain.nextLexeme, h modes u hplain hP]

/-! ## Words -/

/-- A text that is a name. -/
def IsIdentifier (w : Text) : Prop :=
  (∃ c ∈ w.head?, startsIdentifier c = true) ∧ ∀ c ∈ w, continuesIdentifier c = true

/-- The characters that end a name where they follow it, and go on with an expression. -/
def nameEnds : List Char := ['.', '(', ')', ',', '=']

theorem notMark_of_startsIdentifier {c : Char} (h : startsIdentifier c = true) :
    c ≠ '\n' ∧ isGap c = false ∧ c ≠ '#' ∧ c ≠ '\\' := by
  have hne : ∀ d : Char, startsIdentifier d = false → c ≠ d := by
    rintro d hd rfl
    rw [h] at hd
    simp at hd
  refine ⟨hne _ (by decide), ?_, hne _ (by decide), hne _ (by decide)⟩
  cases hgap : isGap c with
  | false => rfl
  | true =>
    have hall : ∀ n ∈ [32, 9, 11, 12, 13, 0xFEFF, 0x2060, 0x200B],
        startsIdentifier (Char.ofNat n) = false := by decide +kernel
    have hmem : c.toNat ∈ [32, 9, 11, 12, 13, 0xFEFF, 0x2060, 0x200B] := by
      simp only [isGap, Bool.or_eq_true, decide_eq_true_eq] at hgap
      simp only [List.mem_cons, List.not_mem_nil]
      omega
    have := hall c.toNat hmem
    rw [Char.ofNat_toNat, h] at this
    simp at this

theorem notPoint_of_startsIdentifier {c : Char} (h : startsIdentifier c = true) :
    c ≠ '.' ∧ isAsciiDigit c = false := by
  refine ⟨?_, ?_⟩
  · rintro rfl
    exact absurd h (by decide)
  · cases hdigit : isAsciiDigit c with
    | false => rfl
    | true =>
      have hall : ∀ n ∈ List.range 10, startsIdentifier (Char.ofNat (48 + n)) = false := by
        decide +kernel
      simp only [isAsciiDigit, Bool.and_eq_true, decide_eq_true_eq] at hdigit
      have hcode : 48 + (c.toNat - 48) = c.toNat := by omega
      have := hall (c.toNat - 48) (List.mem_range.2 (by omega))
      rw [hcode, Char.ofNat_toNat, h] at this
      simp at this

theorem isDelimiterQuote_eq_false {c : Char} (h : continuesIdentifier c = true) :
    isDelimiterQuote c = false := by
  cases hquote : isDelimiterQuote c with
  | false => rfl
  | true =>
    simp only [isDelimiterQuote, Bool.or_eq_true, decide_eq_true_eq] at hquote
    rcases hquote with (rfl | rfl) | hcode
    · exact absurd h (by decide)
    · exact absurd h (by decide)
    · rw [← Char.ofNat_toNat c, hcode] at h
      exact absurd h (by decide)

/-- No string begins where no quote comes behind the letters of a marker. -/
theorem opening?_eq_none_of_begins {w : Text} (hw : ∀ c ∈ w, isDelimiterQuote c = false)
    (hu : ∀ c ∈ u.head?, isMarkerLetter c = false ∧ isDelimiterQuote c = false) :
    Delimiter.opening? (w ++ u) = none := by
  have hhead : ∀ c ∈ ((w ++ u).drop ((w ++ u).takeWhile isMarkerLetter).length).head?,
      isDelimiterQuote c = false := by
    rw [show ((w ++ u).takeWhile isMarkerLetter).length = runLength isMarkerLetter (w ++ u) from rfl,
      drop_runLength]
    intro c hc
    induction w with
    | nil =>
      cases u with
      | nil => simp at hc
      | cons d u =>
        obtain ⟨hletter, hquote⟩ := hu d rfl
        simp only [List.nil_append, List.dropWhile_cons, hletter, Bool.false_eq_true, if_false,
          List.head?_cons, Option.mem_def, Option.some.injEq] at hc
        rwa [← hc]
    | cons d w ih =>
      rw [List.cons_append, List.dropWhile_cons] at hc
      split at hc
      · exact ih (fun e he => hw e (List.mem_cons_of_mem d he)) hc
      · simp only [List.head?_cons, Option.mem_def, Option.some.injEq] at hc
        rw [← hc]
        exact hw d (List.mem_cons_self ..)
  unfold Delimiter.opening?
  dsimp only
  split
  · next q rest heq =>
    have := hhead q (by rw [heq]; rfl)
    simp [this]
  · rfl

/-- A text in front of which a name ends: it does not go on with the name, and begins with no quote that
    would make the letters of the name the marker of a string. -/
def EndsName (u : Text) : Prop :=
  ∀ c ∈ u.head?, continuesIdentifier c = false ∧ isDelimiterQuote c = false

theorem Begins.endsName (h : Begins nameEnds u) : EndsName u := by
  have hends : ∀ e ∈ nameEnds, continuesIdentifier e = false ∧ isDelimiterQuote e = false := by
    simp only [nameEnds, List.mem_cons, List.not_mem_nil, or_false, forall_eq_or_imp, forall_eq]
    decide
  intro e he
  obtain ⟨d, hd, hu⟩ := h
  obtain rfl : d = e := Option.mem_unique hu he
  exact hends d hd

theorem continuesIdentifier_of_isMarkerLetter {c : Char} (h : isMarkerLetter c = true) :
    continuesIdentifier c = true := by
  have hall : ∀ d ∈ ['f', 'F', 'r', 'R', 'b', 'B', 'u', 'U'], continuesIdentifier d = true :=
    List.all_eq_true.1 (by decide)
  exact hall c (List.contains_iff_mem.1 h)

theorem cuts_name {w : Text} (hw : IsIdentifier w) : Cuts EndsName w [⟨.token .word, w⟩] := by
  obtain ⟨⟨c, hc, hstart⟩, hall⟩ := hw
  obtain ⟨w, rfl⟩ : ∃ t, w = c :: t := by
    cases w with
    | nil => simp at hc
    | cons d t => exact ⟨t, by simpa using hc⟩
  refine cuts_lexeme (List.cons_ne_nil c w) fun modes u hplain hu => ?_
  obtain ⟨hline, hgap, hhash, hback⟩ := notMark_of_startsIdentifier hstart
  have hopening : Delimiter.opening? (c :: w ++ u) = none := by
    refine opening?_eq_none_of_begins (fun e he => isDelimiterQuote_eq_false (hall e he)) fun e he => ?_
    refine ⟨Bool.eq_false_iff.2 fun hletter => ?_, (hu e he).2⟩
    have hcontinues := continuesIdentifier_of_isMarkerLetter hletter
    rw [(hu e he).1] at hcontinues
    simp at hcontinues
  have hlength : runLength continuesIdentifier (c :: w ++ u) = (c :: w).length :=
    runLength_append hall fun e he => (hu e he).1
  rw [List.cons_append] at hopening hlength ⊢
  simp only [nextInCode, hline, hgap, hhash, hback, hopening, hstart, hlength, hplain.noteProgress,
    if_true, if_false, Bool.false_eq_true]

theorem cuts_word {w : Text} (hw : IsIdentifier w) : Cuts (Begins nameEnds) w [⟨.token .word, w⟩] :=
  (cuts_name hw).mono fun _ h => h.endsName

/-! ## Symbols and blanks -/

theorem Plain.nil_or_bracket {modes : List Mode} (h : Plain modes) :
    modes = [] ∨ ∃ outer, modes = .bracket :: outer := by
  cases modes with
  | nil => exact .inl rfl
  | cons m modes =>
    obtain rfl : m = .bracket := h m (List.mem_cons_self ..)
    exact .inr ⟨modes, rfl⟩

theorem cuts_comma : Cuts (fun _ => True) [','] [⟨.token .symbol, [',']⟩] :=
  cuts_lexeme (List.cons_ne_nil _ _) fun _ _ hplain _ => by
    rcases hplain.nil_or_bracket with rfl | ⟨_, rfl⟩ <;> rfl

/-- A point in front of a name. -/
theorem cuts_point : Cuts (fun u => ∀ c ∈ u.head?, c ≠ '.' ∧ isAsciiDigit c = false) ['.']
    [⟨.token .symbol, ['.']⟩] := by
  refine cuts_lexeme (List.cons_ne_nil _ _) fun modes u hplain hP => ?_
  cases u with
  | nil => rcases hplain.nil_or_bracket with rfl | ⟨_, rfl⟩ <;> rfl
  | cons c u =>
    obtain ⟨hpoint, hdigit⟩ := hP c rfl
    have hnumber : numberLength ('.' :: c :: u) = (0, false) := by
      have hfraction : digitsLength false (c :: u) = 0 := by simp [digitsLength, hdigit]
      have hwhole : digitsLength false ('.' :: c :: u) = 0 := rfl
      simp [numberLength, basedLength, hwhole, hfraction]
    have hpoint' : ('.' == c) = false := by simpa using hpoint.symm
    have hsymbol : symbolLength ('.' :: c :: u) = 1 := by
      simp [symbolLength, symbols, List.isPrefixOf, hpoint']
    have hnext : nextSymbol modes ('.' :: c :: u) = (.token .symbol, 1, noteProgress false modes) := by
      unfold nextSymbol
      simp only [hsymbol]
      rcases hplain.nil_or_bracket with rfl | ⟨_, rfl⟩ <;> rfl
    have hopening : Delimiter.opening? ('.' :: c :: u) = none := opening?_eq_none rfl rfl
    have hcode : nextInCode modes ('.' :: c :: u) = nextSymbol modes ('.' :: c :: u) := by
      unfold nextInCode
      simp only [hopening, hnumber]
      rfl
    show nextInCode modes ('.' :: c :: u) = _
    rw [hcode, hnext, hplain.noteProgress]
    rfl

/-- A point and a name behind it. -/
theorem cuts_attribute {a : Text} (ha : IsIdentifier a) :
    Cuts (Begins nameEnds) ('.' :: a) [⟨.token .symbol, ['.']⟩, ⟨.token .word, a⟩] := by
  refine cuts_point.append (cuts_word ha) fun v _ c hc => ?_
  obtain ⟨⟨d, hd, hstart⟩, -⟩ := ha
  obtain rfl : d = c := by simpa [List.head?_append, Option.mem_def.1 hd] using hc
  exact notPoint_of_startsIdentifier hstart

/-- Blanks in front of something that is none. -/
theorem cuts_blanks {w : Text} (hne : w ≠ []) (hw : ∀ c ∈ w, isGap c = true) :
    Cuts (fun u => ∀ c ∈ u.head?, isGap c = false) w [⟨.blank, w⟩] := by
  refine cuts_lexeme hne fun modes u hplain hP => ?_
  have hlength : runLength isGap (w ++ u) = w.length := runLength_append hw fun c hc => hP c hc
  obtain ⟨c, w, rfl⟩ := List.exists_cons_of_ne_nil hne
  have hgap := hw c (List.mem_cons_self ..)
  have hline : c ≠ '\n' := by
    rintro rfl
    exact absurd hgap (by decide)
  rw [List.cons_append] at hlength ⊢
  simp only [nextInCode, hline, hgap, hlength, if_true, if_false]

theorem cuts_blank : Cuts (fun u => ∀ c ∈ u.head?, isGap c = false) [' '] [⟨.blank, [' ']⟩] :=
  cuts_blanks (List.cons_ne_nil _ _) (List.forall_mem_singleton.2 (by decide))

/-- A piece in parentheses. -/
theorem Cuts.parenthesized (h : Cuts P t ls) (himp : ∀ u, P (')' :: u)) :
    Cuts (fun _ => True) ('(' :: (t ++ [')']))
      (⟨.token .symbol, ['(']⟩ :: (ls ++ [⟨.token .symbol, [')']⟩])) := by
  intro modes u steps hplain _ hsteps
  have hopen : nextLexeme modes (['('] ++ ((t ++ [')']) ++ u)) =
      (.token .symbol, 1, .bracket :: modes) := by
    rw [hplain.nextLexeme]
    rcases hplain.nil_or_bracket with rfl | ⟨_, rfl⟩ <;> rfl
  have hclose : nextLexeme (.bracket :: modes) ([')'] ++ u) = (.token .symbol, 1, modes) := by
    rw [hplain.bracket.nextLexeme]
    rcases hplain.nil_or_bracket with rfl | ⟨_, rfl⟩ <;> rfl
  have htext : '(' :: (t ++ [')']) ++ u = ['('] ++ ((t ++ [')']) ++ u) := rfl
  rw [htext] at hsteps ⊢
  obtain ⟨rest, hrest, hcut⟩ := scanWith_lexeme (List.cons_ne_nil _ _) hsteps hopen
  rw [List.append_assoc] at hrest hcut ⊢
  obtain ⟨rest', hrest', hcut'⟩ := h (.bracket :: modes) ([')'] ++ u) rest hplain.bracket (himp u) hrest
  obtain ⟨rest'', hrest'', hcut''⟩ := scanWith_lexeme (List.cons_ne_nil _ _) hrest' hclose
  refine ⟨rest'', hrest'', ?_⟩
  rw [hcut, hcut', hcut'']
  simp

end

/-! ## Tokens of a piece of a text -/

/-- The token that a lexeme is. -/
def Placed.token? (p : Placed) : Option Token :=
  match p.lexeme.kind with
  | .token kind => some ⟨kind, p.lexeme.text, p.span⟩
  | _ => none

/-- The tokens of some lexemes from a point on. -/
def tokensFrom (q : Position) (ls : List Lexeme) : List Token :=
  (placeFrom q ls).filterMap Placed.token?

theorem tokensFrom_append (q : Position) (ls ms : List Lexeme) : tokensFrom q (ls ++ ms) =
    tokensFrom q ls ++ tokensFrom (q.afterText (ls.flatMap Lexeme.text)) ms := by
  rw [tokensFrom, placeFrom_append, List.filterMap_append]
  rfl

theorem tokensFrom_cons (q : Position) (kind : TokenKind) (w : Text) (ls : List Lexeme) :
    tokensFrom q (⟨.token kind, w⟩ :: ls) =
      ⟨kind, w, q.span (q.afterText w)⟩ :: tokensFrom (q.afterText w) ls := rfl

theorem tokensFrom_blank (q : Position) (w : Text) (ls : List Lexeme) :
    tokensFrom q (⟨.blank, w⟩ :: ls) = tokensFrom (q.afterText w) ls := rfl

theorem Position.afterText_append (q : Position) (t u : Text) :
    q.afterText (t ++ u) = (q.afterText t).afterText u :=
  List.foldl_append

/-- The point behind a text that starts a script. -/
def pointAt (before : Text) : Position := Position.start.afterText before

theorem afterText_pointAt (t u : Text) : (pointAt t).afterText u = pointAt (t ++ u) :=
  (Position.start.afterText_append t u).symm

theorem byte_pointAt (before : Text) : (pointAt before).byte = before.size := by
  rw [pointAt, Position.afterText_byte]
  exact Nat.zero_add _

theorem tokensFrom_parenthesized (before : Text) {w : Text} {ls : List Lexeme}
    (htext : ls.flatMap Lexeme.text = w) :
    tokensFrom (pointAt before)
        (⟨.token .symbol, ['(']⟩ :: (ls ++ [⟨.token .symbol, [')']⟩])) =
      ⟨.symbol, ['('], (pointAt before).span (pointAt (before ++ ['(']))⟩ ::
        (tokensFrom (pointAt (before ++ ['('])) ls ++
          [⟨.symbol, [')'], (pointAt (before ++ ['('] ++ w)).span
            (pointAt (before ++ ['('] ++ w ++ [')']))⟩]) := by
  rw [tokensFrom_cons, tokensFrom_append, htext, afterText_pointAt, afterText_pointAt, tokensFrom_cons,
    afterText_pointAt]
  rfl

end Redeploy.Syntax
