import Redeploy.Proofs.Script.Quoting

set_option autoImplicit false

/-! # Literals at run time

The lines of a script can end in a line feed, in a carriage return, or in both. Before anything else is
read the language takes each such end for one line feed (`withLineFeeds`), within literals too, so what a
literal evaluates to is what it denotes afterwards (`Evaluates`).

A string that is written as a literal stands on one line, and evaluates to the string
(`exists_delimited_quoteText`, `evaluates_quoteText`). A literal that is read evaluates to the string it
is read as if there is no carriage return in it, and never if there is one (`evaluates_iff`): for each
carriage return that is read, what it evaluates to has one less (`count_unescape?`). -/

namespace Redeploy

/-! ## Line ends -/

/-- A text with a line feed for each end of a line. -/
def Text.withLineFeeds : Text → Text
  | [] => []
  | c :: t =>
    if c = '\r' then if t.head? = some '\n' then withLineFeeds t else '\n' :: withLineFeeds t
    else c :: withLineFeeds t

namespace Text

theorem withLineFeeds_cons {c : Char} (hc : c ≠ '\r') (t : Text) :
    withLineFeeds (c :: t) = c :: withLineFeeds t := by
  rw [withLineFeeds, if_neg hc]

/-- A carriage return is dropped in front of a line feed, and becomes one otherwise. -/
theorem withLineFeeds_return (t : Text) : withLineFeeds ('\r' :: t) =
    if t.head? = some '\n' then withLineFeeds t else '\n' :: withLineFeeds t := by
  rw [withLineFeeds, if_pos rfl]

theorem withLineFeeds_append_of_not_mem {a : Text} (ha : '\r' ∉ a) (b : Text) :
    withLineFeeds (a ++ b) = a ++ withLineFeeds b := by
  induction a with
  | nil => rfl
  | cons c a ih =>
    rw [List.mem_cons, not_or] at ha
    rw [List.cons_append, withLineFeeds_cons (Ne.symm ha.1), ih ha.2, List.cons_append]

theorem withLineFeeds_append (a : Text) {b : Text} (hb : b.head? ≠ some '\n') :
    withLineFeeds (a ++ b) = withLineFeeds a ++ withLineFeeds b := by
  induction a with
  | nil => rfl
  | cons c a ih =>
    rw [List.cons_append]
    by_cases hc : c = '\r'
    · subst hc
      have hhead : (a ++ b).head? = some '\n' ↔ a.head? = some '\n' := by
        cases a with
        | nil => simpa using hb
        | cons d a => simp
      rw [withLineFeeds_return, withLineFeeds_return, ih]
      simp only [hhead]
      split <;> rfl
    · rw [withLineFeeds_cons hc, withLineFeeds_cons hc, ih, List.cons_append]

theorem not_mem_withLineFeeds (t : Text) : '\r' ∉ withLineFeeds t := by
  induction t with
  | nil => simp [withLineFeeds]
  | cons c t ih =>
    by_cases hc : c = '\r'
    · subst hc
      rw [withLineFeeds_return]
      split
      · exact ih
      · simp [ih]
    · rw [withLineFeeds_cons hc]
      simp [Ne.symm hc, ih]

theorem withLineFeeds_eq_self_iff {t : Text} : withLineFeeds t = t ↔ '\r' ∉ t := by
  constructor
  · intro h
    rw [← h]
    exact not_mem_withLineFeeds t
  · intro h
    have := withLineFeeds_append_of_not_mem h []
    rwa [List.append_nil, withLineFeeds, List.append_nil] at this

theorem head?_withLineFeeds {t : Text} {c : Char} (h : (withLineFeeds t).head? = some c) :
    c = '\n' ∨ t.head? = some c := by
  cases t with
  | nil => simp [withLineFeeds] at h
  | cons d t =>
    by_cases hd : d = '\r'
    · subst hd
      rw [withLineFeeds_return] at h
      split at h
      · next hline =>
        obtain ⟨t, rfl⟩ := List.head?_eq_some_iff.1 hline
        rw [withLineFeeds_cons (by decide)] at h
        exact .inl (Option.some.inj h).symm
      · exact .inl (Option.some.inj h).symm
    · rw [withLineFeeds_cons hd] at h
      exact .inr h

end Text

namespace Literal

/-! ## Evaluation -/

/-- What a literal of a script evaluates to, as far as its escapes are known: what it denotes with line
    feeds for the ends of its lines. -/
inductive Evaluates (t : Text) : Text → Prop where
  /-- A raw literal evaluates to its body. -/
  | raw (l : Delimited) (htext : l.text = t.withLineFeeds) (hmarker : l.marker ∈ rawMarkers) :
    Evaluates t l.body
  /-- A plain literal evaluates to what the pieces of its body stand for. -/
  | plain (l : Delimited) (htext : l.text = t.withLineFeeds) (hmarker : l.marker ∈ plainMarkers)
    {value : Text} (h : Denotes l.pieces value) : Evaluates t value

/-- A literal evaluates to what is read of it with line feeds, so to one string only. -/
theorem Evaluates.decodeText?_eq {t value : Text} (h : Evaluates t value) :
    decodeText? t.withLineFeeds = some value := by
  cases h with
  | raw l htext hmarker =>
    rw [← htext, l.decodeText?_text (isRawMarker?_of_mem_rawMarkers hmarker)]
    rfl
  | plain l htext hmarker h =>
    rw [← htext, l.decodeText?_text (isRawMarker?_of_mem_plainMarkers hmarker)]
    exact unescape?_eq_some_iff.2 h

/-! ## Written literals -/

/-- A character is written as one piece, which is no quote and in which no line ends. -/
theorem exists_piece (c : Char) : ∃ p : Piece, p.text = escapeChar c ∧
    ((∀ q ∈ p.text.head?, q ≠ '"') ∧ '\n' ∉ p.text ∧ '\r' ∉ p.text) ∧
      ∀ {pieces : List Piece} {value : Text}, Denotes pieces value →
        Denotes (p :: pieces) (c :: value) := by
  obtain ⟨hplain, hback, hquote, hline⟩ | ⟨e, hescape, hvalue, he⟩ := escapeChar_cases c
  · have hreturn : c ≠ '\r' := by
      rintro rfl
      simp [escapeChar] at hplain
    refine ⟨.plain c hback, hplain.symm, ⟨?_, ?_, ?_⟩, .plain hback⟩
    · simpa [Piece.text] using hquote
    · simpa [Piece.text] using hline.symm
    · simpa [Piece.text] using hreturn.symm
  · refine ⟨.escape e, hescape.symm, ⟨by simp [Piece.text], ?_, ?_⟩,
      .escape (escapeValue?_eq_some_iff.1 hvalue)⟩
    all_goals
      simp only [List.mem_cons, List.not_mem_nil, or_false] at he
      rcases he with rfl | rfl | rfl | rfl | rfl <;> decide

/-- A string is written as a row of such pieces. -/
theorem exists_pieces_flatMap (value : Text) : ∃ pieces : List Piece,
    pieces.flatMap Piece.text = value.flatMap escapeChar ∧
      (∀ p ∈ pieces, (∀ q ∈ p.text.head?, q ≠ '"') ∧ '\n' ∉ p.text ∧ '\r' ∉ p.text) ∧
        Denotes pieces value := by
  induction value with
  | nil => exact ⟨[], rfl, by simp, .nil⟩
  | cons c value ih =>
    obtain ⟨pieces, htext, hpieces, hdenotes⟩ := ih
    obtain ⟨p, hp, hclean, hc⟩ := exists_piece c
    refine ⟨p :: pieces, ?_, List.forall_mem_cons.2 ⟨hclean, hpieces⟩, hc hdenotes⟩
    rw [List.flatMap_cons, List.flatMap_cons, hp, htext]

/-- A quote does not begin at a piece that does not begin with one. -/
theorem not_prefix_flatMap {pieces : List Piece} (h : ∀ p ∈ pieces, ∀ q ∈ p.text.head?, q ≠ '"') :
    ∀ behind ∈ pieces.tails, ¬ ['"'] <+: behind.flatMap Piece.text := by
  rintro behind hbehind ⟨rest, hrest⟩
  cases behind with
  | nil => simp at hrest
  | cons p behind =>
    have hp : p ∈ pieces := ((List.mem_tails ..).1 hbehind).subset (List.mem_cons_self ..)
    refine h p hp '"' ?_ rfl
    rw [List.flatMap_cons] at hrest
    cases p with
    | plain c hc =>
      obtain rfl := (List.cons.inj hrest).1
      rfl
    | escape c => exact absurd (List.cons.inj hrest).1 (by decide)

/-- A string is written as a plain literal in double quotes, on one line and with no quote between them
    but behind a backslash. -/
theorem exists_delimited_quoteText (value : Text) : ∃ l : Delimited, l.text = quoteText value ∧
    l.marker = [] ∧ l.delimiter = ['"'] ∧ (∀ p ∈ l.pieces, p.text ≠ ['"']) ∧
      '\n' ∉ l.text ∧ '\r' ∉ l.text ∧ Denotes l.pieces value := by
  obtain ⟨pieces, htext, hpieces, hdenotes⟩ := exists_pieces_flatMap value
  have hclean : ∀ c, (∀ p ∈ pieces, c ∉ p.text) → c ≠ '"' →
      c ∉ '"' :: value.flatMap escapeChar ++ ['"'] := by
    intro c hc hquote
    rw [← htext]
    simp only [List.cons_append, List.mem_cons, List.mem_append, List.mem_flatMap, not_or, not_exists,
      not_and, List.not_mem_nil, not_false_eq_true, and_true]
    exact ⟨hquote, fun p hp => hc p hp, hquote⟩
  refine ⟨⟨[], ['"'], pieces, by decide, not_prefix_flatMap fun p hp => (hpieces p hp).1⟩, ?_, rfl, rfl,
    fun p hp heq => (hpieces p hp).1 '"' (by simp [heq]) rfl, ?_, ?_, hdenotes⟩
  · simp only [Delimited.text, Delimited.body, htext]
    rfl
  · simp only [Delimited.text, Delimited.body, htext]
    exact hclean '\n' (fun p hp => (hpieces p hp).2.1) (by decide)
  · simp only [Delimited.text, Delimited.body, htext]
    exact hclean '\r' (fun p hp => (hpieces p hp).2.2) (by decide)

/-- A string that is written as a literal is what the literal evaluates to. -/
theorem evaluates_quoteText (value : Text) : Evaluates (quoteText value) value := by
  obtain ⟨l, htext, hmarker, -, -, -, hreturn, hdenotes⟩ := exists_delimited_quoteText value
  refine .plain l ?_ (by simp [hmarker, plainMarkers]) hdenotes
  rw [← htext]
  exact (Text.withLineFeeds_eq_self_iff.2 hreturn).symm

/-! ## Literals of a script -/

theorem ne_return_of_mem_knownEscapes {c : Char} {meaning : Text} (h : (c, meaning) ∈ knownEscapes) :
    c ≠ '\r' := by
  rintro rfl
  simp [knownEscapes] at h

/-- For each carriage return in a body, what the body is read as has one more than what is read of it
    with line feeds. -/
theorem count_unescape? {pieces : List Piece} {value : Text} (h : Denotes pieces value) {value' : Text}
    (h' : unescape? (Text.withLineFeeds (pieces.flatMap Piece.text)) = some value') :
    value'.count '\r' + (pieces.flatMap Piece.text).count '\r' = value.count '\r' := by
  induction h generalizing value' with
  | nil =>
    obtain rfl := Option.some.inj h'
    rfl
  | @plain c hc pieces value hrest ih =>
    rw [List.flatMap_cons, Piece.text, List.singleton_append] at h' ⊢
    by_cases hreturn : c = '\r'
    · subst hreturn
      rw [Text.withLineFeeds_return] at h'
      rw [List.count_cons_self, List.count_cons_self]
      split at h'
      · have := ih h'
        omega
      · rw [unescape?_cons (by decide)] at h'
        obtain ⟨rest, hread, rfl⟩ := Option.map_eq_some_iff.1 h'
        have := ih hread
        rw [List.count_cons_of_ne (by decide)]
        omega
    · rw [Text.withLineFeeds_cons hreturn, unescape?_cons hc] at h'
      obtain ⟨rest, hread, rfl⟩ := Option.map_eq_some_iff.1 h'
      have := ih hread
      rw [List.count_cons_of_ne hreturn, List.count_cons_of_ne hreturn, List.count_cons_of_ne hreturn]
      omega
  | @escape c meaning hmeaning pieces value hrest ih =>
    have hreturn := ne_return_of_mem_knownEscapes hmeaning
    rw [List.flatMap_cons, Piece.text, List.cons_append, List.singleton_append] at h' ⊢
    rw [Text.withLineFeeds_cons (by decide), Text.withLineFeeds_cons hreturn, unescape?_escape,
      escapeValue?_eq_some_iff.2 hmeaning, Option.bind_some] at h'
    obtain ⟨rest, hread, rfl⟩ := Option.map_eq_some_iff.1 h'
    have := ih hread
    rw [List.count_cons_of_ne (by decide), List.count_cons_of_ne hreturn, List.count_append,
      List.count_append]
    omega

/-- What is read of a literal with line feeds for the ends of its lines: the marker and the delimiters are
    as they were. -/
theorem decodeText?_withLineFeeds (l : Delimited) {raw : Bool} (h : isRawMarker? l.marker = some raw) :
    decodeText? l.text.withLineFeeds =
      if raw then some l.body.withLineFeeds else unescape? l.body.withLineFeeds := by
  have hmarker : '\r' ∉ l.marker := fun hmem => absurd (lowerMarker_mem h hmem) (by decide)
  have hdelimiter : ∀ d ∈ delimiters, '\r' ∉ d ∧ d.head? ≠ some '\n' ∧ d ≠ ['\n'] := by decide
  obtain ⟨hreturn, hhead, hline⟩ := hdelimiter l.delimiter l.isDelimiter
  have htext : l.text.withLineFeeds =
      l.marker ++ (l.delimiter ++ l.body.withLineFeeds ++ l.delimiter) := by
    rw [Delimited.text, List.append_assoc, Text.withLineFeeds_append_of_not_mem hmarker,
      Text.withLineFeeds_append_of_not_mem hreturn, Text.withLineFeeds_append _ hhead,
      Text.withLineFeeds_eq_self_iff.2 hreturn, List.append_assoc]
  have hfound : delimiter? (l.delimiter ++ l.body.withLineFeeds ++ l.delimiter) = some l.delimiter := by
    refine delimiter?_append l.isDelimiter fun q hq c hc => ?_
    rcases Text.head?_withLineFeeds hc with rfl | hc
    · rintro rfl
      exact hline hq
    · exact l.head_body_ne hq c hc
  rw [htext, decodeText?_of_body? h (isQuote_head_of_mem_delimiters l.isDelimiter _) (body?_append hfound)]

theorem not_mem_text_iff (l : Delimited) {raw : Bool} (h : isRawMarker? l.marker = some raw) :
    '\r' ∉ l.text ↔ '\r' ∉ l.body := by
  have hmarker : '\r' ∉ l.marker := fun hmem => absurd (lowerMarker_mem h hmem) (by decide)
  have hdelimiter : ∀ d ∈ delimiters, '\r' ∉ d := by decide
  simp [Delimited.text, hmarker, hdelimiter l.delimiter l.isDelimiter]

/-- A literal that is read evaluates to what it is read as if there is no carriage return in it, and to
    something else if there is one. -/
theorem evaluates_iff {l : Delimited} (hmarker : l.marker ∈ plainMarkers ∨ l.marker ∈ rawMarkers)
    {value : Text} (hread : decodeText? l.text = some value) :
    Evaluates l.text value ↔ '\r' ∉ l.text := by
  constructor
  · intro h
    have hfeeds := h.decodeText?_eq
    rcases hmarker with hplain | hraw
    · have hkind := isRawMarker?_of_mem_plainMarkers hplain
      rw [l.decodeText?_text hkind] at hread
      rw [decodeText?_withLineFeeds l hkind] at hfeeds
      have hcount := count_unescape? (unescape?_eq_some_iff.1 hread) hfeeds
      rw [not_mem_text_iff l hkind, ← List.count_eq_zero]
      exact Nat.left_eq_add.1 hcount.symm
    · have hkind := isRawMarker?_of_mem_rawMarkers hraw
      rw [l.decodeText?_text hkind] at hread
      rw [decodeText?_withLineFeeds l hkind] at hfeeds
      rw [not_mem_text_iff l hkind, ← Text.withLineFeeds_eq_self_iff]
      exact Option.some.inj (hfeeds.trans hread.symm)
  · intro hreturn
    have hsame : l.text = l.text.withLineFeeds := (Text.withLineFeeds_eq_self_iff.2 hreturn).symm
    rcases hmarker with hplain | hraw
    · rw [l.decodeText?_text (isRawMarker?_of_mem_plainMarkers hplain)] at hread
      exact .plain l hsame hplain (unescape?_eq_some_iff.1 hread)
    · rw [l.decodeText?_text (isRawMarker?_of_mem_rawMarkers hraw)] at hread
      obtain rfl := Option.some.inj hread
      exact .raw l hsame hraw

end Literal

end Redeploy
