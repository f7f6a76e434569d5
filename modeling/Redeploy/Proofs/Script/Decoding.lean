import Mathlib.Data.List.Infix
import Redeploy.Expr.Literal

set_option autoImplicit false

/-! # Reading literals

A literal is a marker, a delimiter, a body and the delimiter again. The body is a row of pieces, each a
character that stands for itself or a backslash with the character that it takes along, and the delimiter
begins at none of them (`Delimited`); every text that does not end in the middle of an escape is such a
row (`exists_pieces`). Such a literal is cut at its delimiters however many quotes stand next to each
other at its ends (`body?_text`). A raw one then denotes its body; of a plain one the pieces are read one
by one, so that it denotes what they stand for, in a row, and nothing if one of them is an escape that is
not known (`decode?_of_delimited`). -/

namespace Redeploy.Literal

/-! ## Literals -/

/-- A part of a body that is read at once. -/
inductive Piece where
  /-- A character that is no backslash. -/
  | plain (c : Char) (h : c ≠ '\\' := by decide)
  /-- A backslash and the character behind it. -/
  | escape (c : Char)

/-- The part as it is written. -/
def Piece.text : Piece → Text
  | plain c _ => [c]
  | escape c => ['\\', c]

/-- Every text is a row of pieces, unless it ends in the middle of an escape. -/
theorem exists_pieces (t : Text) : ∃ pieces : List Piece,
    t = pieces.flatMap Piece.text ∨ t = pieces.flatMap Piece.text ++ ['\\'] := by
  match t with
  | [] => exact ⟨[], .inl rfl⟩
  | c :: t =>
    by_cases hc : c = '\\'
    · subst hc
      match t with
      | [] => exact ⟨[], .inr rfl⟩
      | c :: t =>
        obtain ⟨pieces, h | h⟩ := exists_pieces t
        · exact ⟨.escape c :: pieces, .inl (by rw [h]; rfl)⟩
        · exact ⟨.escape c :: pieces, .inr (by rw [h]; rfl)⟩
    · obtain ⟨pieces, h | h⟩ := exists_pieces t
      · exact ⟨.plain c hc :: pieces, .inl (by rw [h]; rfl)⟩
      · exact ⟨.plain c hc :: pieces, .inr (by rw [h]; rfl)⟩

/-- The characters that can stand behind a backslash in a plain literal, with what the two stand for. -/
def knownEscapes : List (Char × Text) :=
  [('\\', ['\\']), ('\'', ['\'']), ('"', ['"']), ('n', ['\n']), ('t', ['\t']), ('r', ['\r']), ('\n', [])]

/-- What the pieces of a plain literal stand for. -/
inductive Denotes : List Piece → Text → Prop where
  /-- No piece stands for nothing. -/
  | nil : Denotes [] []
  /-- A character stands for itself. -/
  | plain {c : Char} (h : c ≠ '\\') {pieces : List Piece} {value : Text} (hrest : Denotes pieces value) :
    Denotes (.plain c h :: pieces) (c :: value)
  /-- An escape stands for what is known of it. -/
  | escape {c : Char} {meaning : Text} (h : (c, meaning) ∈ knownEscapes) {pieces : List Piece}
    {value : Text} (hrest : Denotes pieces value) : Denotes (.escape c :: pieces) (meaning ++ value)

/-- The markers of plain literals. -/
def plainMarkers : List Text := [[], ['u'], ['U']]

/-- The markers of raw literals. -/
def rawMarkers : List Text :=
  [['r'], ['R'], ['u', 'r'], ['u', 'R'], ['U', 'r'], ['U', 'R'], ['r', 'u'], ['r', 'U'], ['R', 'u'],
    ['R', 'U']]

/-- The delimiters of literals. -/
def delimiters : List Text :=
  [['"', '"', '"'], ['\'', '\'', '\''], ['"'], ['\'']]

/-- A body between two delimiters, behind a marker. -/
structure Delimited where
  /-- The letters in front. -/
  marker : Text
  /-- What the body is enclosed in. -/
  delimiter : Text
  /-- The body. -/
  pieces : List Piece
  isDelimiter : delimiter ∈ delimiters
  /-- The delimiter does not begin at any of the pieces. -/
  unbroken : ∀ behind ∈ pieces.tails, ¬ delimiter <+: behind.flatMap Piece.text

/-- The body as it is written. -/
def Delimited.body (l : Delimited) : Text :=
  l.pieces.flatMap Piece.text

/-- The literal as it is written. -/
def Delimited.text (l : Delimited) : Text :=
  l.marker ++ (l.delimiter ++ l.body ++ l.delimiter)

/-! ## Escapes -/

theorem escapeValue?_eq_some_iff {c : Char} {meaning : Text} :
    escapeValue? c = some meaning ↔ (c, meaning) ∈ knownEscapes := by
  constructor
  · intro h
    unfold escapeValue? at h
    split at h
    · next hself =>
      obtain rfl := Option.some.inj h
      rcases hself with rfl | rfl | rfl <;> decide
    split at h
    · next hline =>
      obtain ⟨rfl, rfl⟩ := And.intro hline (Option.some.inj h)
      decide
    split at h
    · next htab =>
      obtain ⟨rfl, rfl⟩ := And.intro htab (Option.some.inj h)
      decide
    split at h
    · next hreturn =>
      obtain ⟨rfl, rfl⟩ := And.intro hreturn (Option.some.inj h)
      decide
    split at h
    · next hbreak =>
      obtain ⟨rfl, rfl⟩ := And.intro hbreak (Option.some.inj h)
      decide
    · simp at h
  · intro h
    simp only [knownEscapes, List.mem_cons, Prod.mk.injEq, List.not_mem_nil, or_false] at h
    rcases h with ⟨rfl, rfl⟩ | ⟨rfl, rfl⟩ | ⟨rfl, rfl⟩ | ⟨rfl, rfl⟩ | ⟨rfl, rfl⟩ | ⟨rfl, rfl⟩ |
      ⟨rfl, rfl⟩ <;> rfl

theorem escapeValue?_eq_none_iff {c : Char} :
    escapeValue? c = none ↔ c ∉ knownEscapes.map Prod.fst := by
  rw [Option.eq_none_iff_forall_ne_some]
  simp [escapeValue?_eq_some_iff]

theorem unescape?_cons {c : Char} (hc : c ≠ '\\') (t : Text) :
    unescape? (c :: t) = (unescape? t).map (c :: ·) := by
  conv => lhs; unfold unescape?
  split
  · next heq => simp at heq
  · next heq => exact absurd (List.cons.inj heq).1 hc
  · next heq => exact absurd (List.cons.inj heq).1 hc
  · next heq =>
    obtain ⟨rfl, rfl⟩ := List.cons.inj heq
    rfl

theorem unescape?_escape (c : Char) (t : Text) : unescape? ('\\' :: c :: t) =
    (escapeValue? c).bind fun meaning => (unescape? t).map (meaning ++ ·) := by
  rw [unescape?]
  cases escapeValue? c <;> rfl

/-- A body is read as what its pieces stand for. -/
theorem unescape?_eq_some_iff {pieces : List Piece} {value : Text} :
    unescape? (pieces.flatMap Piece.text) = some value ↔ Denotes pieces value := by
  constructor
  · intro h
    -- reading takes one piece at a time, so what is left of the value is what the other pieces stand for
    induction pieces generalizing value with
    | nil =>
      obtain rfl := Option.some.inj h
      exact .nil
    | cons piece pieces ih =>
      rw [List.flatMap_cons] at h
      cases piece with
      | plain c hc =>
        rw [Piece.text, List.singleton_append, unescape?_cons hc] at h
        obtain ⟨rest, hrest, rfl⟩ := Option.map_eq_some_iff.1 h
        exact .plain hc (ih hrest)
      | escape c =>
        rw [Piece.text, List.cons_append, List.singleton_append, unescape?_escape] at h
        obtain ⟨meaning, hmeaning, h⟩ := Option.bind_eq_some_iff.1 h
        obtain ⟨rest, hrest, rfl⟩ := Option.map_eq_some_iff.1 h
        exact .escape (escapeValue?_eq_some_iff.1 hmeaning) (ih hrest)
  · intro h
    induction h with
    | nil => rfl
    | plain hc _ ih =>
      rw [List.flatMap_cons, Piece.text, List.singleton_append, unescape?_cons hc, ih, Option.map_some]
    | escape hmeaning _ ih =>
      rw [List.flatMap_cons, Piece.text, List.cons_append, List.singleton_append, unescape?_escape,
        escapeValue?_eq_some_iff.2 hmeaning, Option.bind_some, ih, Option.map_some]

/-- A body is not read if an escape in it is not known. -/
theorem unescape?_eq_none_iff {pieces : List Piece} : unescape? (pieces.flatMap Piece.text) = none ↔
    ∃ c, .escape c ∈ pieces ∧ c ∉ knownEscapes.map Prod.fst := by
  induction pieces with
  | nil => simp [unescape?]
  | cons piece pieces ih =>
    rw [List.flatMap_cons]
    cases piece with
    | plain c hc =>
      rw [Piece.text, List.singleton_append, unescape?_cons hc, Option.map_eq_none_iff, ih]
      simp
    | escape c =>
      rw [Piece.text, List.cons_append, List.singleton_append, unescape?_escape]
      -- a known escape leaves the question to the rest, an unknown one answers it
      by_cases hknown : c ∈ knownEscapes.map Prod.fst
      · obtain ⟨meaning, hmeaning⟩ := Option.ne_none_iff_exists'.1 fun hnone =>
          escapeValue?_eq_none_iff.1 hnone hknown
        rw [hmeaning, Option.bind_some, Option.map_eq_none_iff, ih]
        refine exists_congr fun d => ?_
        simp only [List.mem_cons, Piece.escape.injEq]
        constructor
        · rintro ⟨hmem, hunknown⟩
          exact ⟨.inr hmem, hunknown⟩
        · rintro ⟨rfl | hmem, hunknown⟩
          · exact absurd hknown hunknown
          · exact ⟨hmem, hunknown⟩
      · rw [escapeValue?_eq_none_iff.2 hknown, Option.bind_none]
        simp only [true_iff]
        exact ⟨c, List.mem_cons_self .., hknown⟩

/-! ## Delimiters -/

/-- A quote is the delimiter by itself of a body that does not begin with the quote. -/
theorem delimiter?_quoted {q : Char} {body : Text} (hq : q = '"' ∨ q = '\'')
    (hhead : ∀ c ∈ body.head?, c ≠ q) : delimiter? (q :: (body ++ [q])) = some [q] := by
  have htriple : ∀ t, q :: (body ++ [q]) ≠ q :: q :: q :: t := by
    intro t heq
    cases body with
    | nil => simp at heq
    | cons c body => exact hhead c rfl (List.cons.inj (List.cons.inj heq).2).1
  unfold delimiter?
  split
  · next t heq =>
    obtain rfl := (List.cons.inj heq).1
    exact absurd heq (htriple t)
  · next t heq =>
    obtain rfl := (List.cons.inj heq).1
    exact absurd heq (htriple t)
  · next heq => rw [(List.cons.inj heq).1]
  · next heq => rw [(List.cons.inj heq).1]
  · next hdouble hsingle =>
    rcases hq with rfl | rfl
    · exact absurd rfl (hdouble _)
    · exact absurd rfl (hsingle _)

/-- A delimiter is found in front of a body; of one quote it matters that the body does not begin with
    it, while three quotes are seen at once. -/
theorem delimiter?_append {d body : Text} (hd : d ∈ delimiters)
    (hhead : ∀ q, d = [q] → ∀ c ∈ body.head?, c ≠ q) : delimiter? (d ++ body ++ d) = some d := by
  simp only [delimiters, List.mem_cons, List.not_mem_nil, or_false] at hd
  rcases hd with rfl | rfl | rfl | rfl
  · rfl
  · rfl
  · exact delimiter?_quoted (.inl rfl) (hhead _ rfl)
  · exact delimiter?_quoted (.inr rfl) (hhead _ rfl)

theorem isQuote_head_of_mem_delimiters {d : Text} (hd : d ∈ delimiters) (body : Text) :
    ∃ q t, d ++ body ++ d = q :: t ∧ isQuote q = true := by
  simp only [delimiters, List.mem_cons, List.not_mem_nil, or_false] at hd
  rcases hd with rfl | rfl | rfl | rfl
  all_goals exact ⟨_, _, rfl, rfl⟩

/-- What stands between two delimiters is found. -/
theorem body?_append {d body : Text} (h : delimiter? (d ++ body ++ d) = some d) :
    body? (d ++ body ++ d) = some body := by
  have hlength : (d ++ body ++ d).length = body.length + 2 * d.length := by
    simp only [List.length_append]
    omega
  have hsuffix : d.isSuffixOf (d ++ body ++ d) = true := by
    rw [List.isSuffixOf_iff_suffix]
    exact List.suffix_append _ _
  rw [body?, h]
  simp only [hlength, hsuffix, and_true]
  rw [if_pos (by omega), Nat.add_sub_cancel, List.append_assoc, List.drop_left, List.take_left]

namespace Delimited

variable (l : Delimited)

/-- A body in quotes does not begin with the quote. -/
theorem head_body_ne {q : Char} (hq : l.delimiter = [q]) : ∀ c ∈ l.body.head?, c ≠ q := by
  rintro c hc rfl
  refine l.unbroken l.pieces ((List.mem_tails ..).2 List.suffix_rfl) ?_
  obtain ⟨body, hbody⟩ := List.head?_eq_some_iff.1 hc
  rw [hq]
  exact ⟨body, hbody.symm⟩

theorem delimiter?_text : delimiter? (l.delimiter ++ l.body ++ l.delimiter) = some l.delimiter :=
  delimiter?_append l.isDelimiter fun _ => l.head_body_ne

theorem body?_text : body? (l.delimiter ++ l.body ++ l.delimiter) = some l.body :=
  body?_append l.delimiter?_text

end Delimited

/-! ## Markers -/

/-- A literal is read by its marker, which is all in front of the first quote. -/
theorem decodeText?_append {marker rest : Text} (hmarker : ∀ c ∈ marker, isQuote c = false)
    (hrest : ∃ q t, rest = q :: t ∧ isQuote q = true) : decodeText? (marker ++ rest) =
      (isRawMarker? marker).bind fun raw =>
        if raw then body? rest else (body? rest).bind unescape? := by
  obtain ⟨q, t, rfl, hq⟩ := hrest
  have hpos : ∀ c ∈ marker, (!isQuote c) = true := fun c hc => by rw [hmarker c hc]; rfl
  have htake : (marker ++ q :: t).takeWhile (fun c => !isQuote c) = marker := by
    rw [List.takeWhile_append_of_pos hpos]
    simp [hq]
  have hdrop : (marker ++ q :: t).dropWhile (fun c => !isQuote c) = q :: t := by
    rw [List.dropWhile_append_of_pos hpos]
    simp [hq]
  unfold decodeText?
  simp only [htake, hdrop]
  rcases isRawMarker? marker with _ | _ | _ <;> rfl

theorem isRawMarker?_of_mem_plainMarkers {marker : Text} (h : marker ∈ plainMarkers) :
    isRawMarker? marker = some false := by
  revert marker
  decide

theorem isRawMarker?_of_mem_rawMarkers {marker : Text} (h : marker ∈ rawMarkers) :
    isRawMarker? marker = some true := by
  revert marker
  decide

/-- A marker that is read has no other letters than `u` and `r`. -/
theorem lowerMarker_mem {marker : Text} {raw : Bool} (h : isRawMarker? marker = some raw) {c : Char}
    (hc : c ∈ marker) : lowerMarker c ∈ ['u', 'r'] := by
  have hmem : lowerMarker c ∈ marker.map lowerMarker := List.mem_map_of_mem hc
  unfold isRawMarker? at h
  split at h
  -- the sixth case is that of all other markers
  case h_6 => simp at h
  all_goals
    next hlower =>
      rw [hlower] at hmem
      revert hmem
      simp +contextual [or_comm]

/-- A literal whose marker has a letter that is not known is not read, whatever follows. -/
theorem decodeText?_eq_none {marker rest : Text} (hmarker : ∀ c ∈ marker, isQuote c = false) {c : Char}
    (hc : c ∈ marker) (hletter : lowerMarker c ∉ ['u', 'r']) : decodeText? (marker ++ rest) = none := by
  have hpos : ∀ c ∈ marker, (!isQuote c) = true := fun c hc => by rw [hmarker c hc]; rfl
  have hnone : isRawMarker? ((marker ++ rest).takeWhile fun c => !isQuote c) = none := by
    rw [Option.eq_none_iff_forall_ne_some]
    intro raw hraw
    refine hletter (lowerMarker_mem hraw ?_)
    rw [List.takeWhile_append_of_pos hpos]
    exact List.mem_append_left _ hc
  unfold decodeText?
  simp only [hnone]

theorem isQuote_eq_false_iff {c : Char} : isQuote c = false ↔ c ≠ '"' ∧ c ≠ '\'' := by
  simp [isQuote]

/-- A literal with a known marker is read by its body. -/
theorem decodeText?_of_body? {marker rest body : Text} {raw : Bool} (h : isRawMarker? marker = some raw)
    (hrest : ∃ q t, rest = q :: t ∧ isQuote q = true) (hbody : body? rest = some body) :
    decodeText? (marker ++ rest) = if raw then some body else unescape? body := by
  have hmarker : ∀ c ∈ marker, isQuote c = false := by
    intro c hc
    have hletter := lowerMarker_mem h hc
    rw [isQuote_eq_false_iff]
    constructor
    all_goals
      rintro rfl
      exact absurd hletter (by decide)
  rw [decodeText?_append hmarker hrest, h, Option.bind_some, hbody, Option.bind_some]

/-! ## What a literal denotes -/

namespace Delimited

variable (l : Delimited)

theorem decodeText?_text {raw : Bool} (h : isRawMarker? l.marker = some raw) :
    decodeText? l.text = if raw then some l.body else unescape? l.body :=
  decodeText?_of_body? h (isQuote_head_of_mem_delimiters l.isDelimiter l.body) l.body?_text

end Delimited

/-- A raw literal denotes its body, a plain one what the pieces of its body stand for; the plain one
    denotes nothing exactly if an escape in it is not known, and what has an `f` or a `b` in its marker
    never denotes anything. -/
theorem decode?_of_delimited (l : Delimited) :
    (l.marker ∈ rawMarkers → decode? (String.ofList l.text) = some (String.ofList l.body)) ∧
    (l.marker ∈ plainMarkers →
      (∀ value, decode? (String.ofList l.text) = some (String.ofList value) ↔ Denotes l.pieces value) ∧
      (decode? (String.ofList l.text) = none ↔
        ∃ c, .escape c ∈ l.pieces ∧ c ∉ knownEscapes.map Prod.fst)) ∧
    ∀ marker rest : Text, (∀ c ∈ marker, c ≠ '"' ∧ c ≠ '\'') → (∃ c ∈ marker, c ∈ ['f', 'F', 'b', 'B']) →
      decode? (String.ofList (marker ++ rest)) = none := by
  have hdecode : ∀ t, decode? (String.ofList t) = (decodeText? t).map String.ofList := fun t => by
    rw [decode?, String.toList_ofList]
  refine ⟨fun hraw => ?_, fun hplain => ?_, fun marker rest hquotes hletter => ?_⟩
  · rw [hdecode, l.decodeText?_text (isRawMarker?_of_mem_rawMarkers hraw)]
    rfl
  · have hread := l.decodeText?_text (isRawMarker?_of_mem_plainMarkers hplain)
    rw [hdecode, hread]
    refine ⟨fun value => ?_, ?_⟩
    · rw [← unescape?_eq_some_iff]
      show (unescape? l.body).map String.ofList = (some value).map String.ofList ↔ _
      exact (Option.map_injective fun _ _ => String.ofList_injective).eq_iff
    · rw [Option.map_eq_none_iff]
      exact unescape?_eq_none_iff
  · obtain ⟨c, hc, hletter⟩ := hletter
    have hother : lowerMarker c ∉ ['u', 'r'] := by
      simp only [List.mem_cons, List.not_mem_nil, or_false] at hletter
      rcases hletter with rfl | rfl | rfl | rfl <;> decide
    rw [hdecode, decodeText?_eq_none (fun c hc => isQuote_eq_false_iff.2 (hquotes c hc)) hc hother]
    rfl

/-- A raw literal in three quotes whose body begins with a quote and ends with an escaped one. -/
def rawSample : Delimited where
  marker := ['r', 'U']
  delimiter := ['"', '"', '"']
  pieces := [.plain '"', .plain 'a', .escape '"']
  isDelimiter := by decide
  unbroken := by decide

/-- A plain literal with a backslash in front of a backslash, of a quote and of a line break. -/
def plainSample : Delimited where
  marker := ['U']
  delimiter := ['\'']
  pieces := [.escape '\\', .escape '\'', .plain '"', .escape '\n', .plain 'n']
  isDelimiter := by decide
  unbroken := by decide

/-- A plain literal with an escape that is not known. -/
def unknownSample : Delimited where
  marker := []
  delimiter := ['"']
  pieces := [.plain 'a', .escape 'x']
  isDelimiter := by decide
  unbroken := by decide

theorem decode?_samples :
    decode? "rU\"\"\"\"a\\\"\"\"\"" = some "\"a\\\"" ∧
    decode? "U'\\\\\\'\"\\\nn'" = some "\\'\"n" ∧
    decode? "\"a\\x\"" = none ∧
    decode? "Rb\"x\"" = none := by
  refine ⟨(decode?_of_delimited rawSample).1 (by decide),
    (((decode?_of_delimited plainSample).2.1 (by decide)).1 ['\\', '\'', '"', 'n']).2 ?_,
    ((decode?_of_delimited unknownSample).2.1 (by decide)).2.2 ⟨'x', ?_, by decide⟩,
    (decode?_of_delimited rawSample).2.2 ['R', 'b'] ['"', 'x', '"'] (by simp) ⟨'b', by simp, by simp⟩⟩
  · show Denotes plainSample.pieces (['\\'] ++ (['\''] ++ '"' :: ([] ++ ['n'])))
    exact .escape (by decide) (.escape (by decide)
      (.plain (by decide) (.escape (by decide) (.plain (by decide) .nil))))
  · exact List.mem_cons_of_mem _ (List.mem_cons_self ..)

end Redeploy.Literal
