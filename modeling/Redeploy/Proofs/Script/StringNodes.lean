import Redeploy.Proofs.Script.Closing
import Redeploy.Proofs.Script.LineEnds
import Redeploy.Proofs.Syntax.Layout
import Redeploy.Proofs.Syntax.Parsed
import Redeploy.Proofs.Syntax.Rows

set_option autoImplicit false

/-! # The strings of a script

A string of a script that is read is a literal (`exists_delimited_of_string`): a marker that is known, a
delimiter, a row of pieces that the delimiter begins at none of, and the delimiter again. Each string has
an opening and an end, and the grammar lets only interpolations stand between them
(`Reads.exists_isString`). What is read has an opening without an `f` (`Marks.of_decodeText?`), so the next
token is the end, and what the scan takes between the two is the content of the string. -/

namespace Redeploy.Syntax

open Literal (Delimited Evaluates body? decode? decodeText? delimiters isQuote isRawMarker? lowerMarker
  plainMarkers rawMarkers)

/-! ## Markers -/

/-- The letters that may stand in front of a string. -/
def markerLetters : List Char := ['f', 'F', 'r', 'R', 'b', 'B', 'u', 'U']

theorem mem_markerLetters {c : Char} (hc : isMarkerLetter c = true) : c ∈ markerLetters :=
  List.contains_iff_mem.1 hc

/-- Whether a marker is known if it is read. -/
def isKnownIfRead (marker : Text) : Bool :=
  (isRawMarker? marker).all fun raw => (if raw then rawMarkers else plainMarkers).contains marker

/-- A marker that is read is one of those that are known. -/
theorem mem_of_isRawMarker? {marker : Text} (hletters : ∀ c ∈ marker, isMarkerLetter c = true) {raw : Bool}
    (h : isRawMarker? marker = some raw) : marker ∈ if raw then rawMarkers else plainMarkers := by
  have hone := List.all_eq_true.1 (show markerLetters.all (fun c => isKnownIfRead [c]) = true by decide)
  have htwo := List.all_eq_true.1 (show markerLetters.all (fun c =>
    markerLetters.all fun c' => isKnownIfRead [c, c']) = true by decide)
  have hknown : isKnownIfRead marker = true := by
    match marker with
    | [] => rfl
    | [c] => exact hone c (mem_markerLetters (hletters c (by simp)))
    | [c, c'] =>
      exact List.all_eq_true.1 (htwo c (mem_markerLetters (hletters c (by simp)))) c'
        (mem_markerLetters (hletters c' (by simp)))
    | _ :: _ :: _ :: _ => simp [isRawMarker?] at h
  rw [isKnownIfRead, h] at hknown
  exact List.contains_iff_mem.1 hknown

theorem not_isQuote_of_isMarkerLetter {c : Char} (hc : isMarkerLetter c = true) : isQuote c = false := by
  have hall := List.all_eq_true.1 (show markerLetters.all (fun c => !isQuote c) = true by decide)
  simpa using hall c (mem_markerLetters hc)

/-- The delimiters of the literals that are read. -/
theorem replicate_mem_delimiters {d : Delimiter} (h : isQuote d.quote = true) :
    List.replicate d.size d.quote ∈ delimiters := by
  unfold Delimiter.size
  rcases (show d.quote = '"' ∨ d.quote = '\'' by simpa [isQuote] using h) with h | h <;> rw [h] <;>
    split <;> decide

/-- A literal that is read has a marker that is known and is in quotes. -/
theorem Marks.of_decodeText? {marker w value : Text} {d : Delimiter} (h : Marks marker d)
    (hread : decodeText? (marker ++ (List.replicate d.size d.quote ++ w)) = some value) :
    isQuote d.quote = true ∧ d.format = false ∧ isRawMarker? marker = some d.raw := by
  have hletters : ∀ c ∈ marker, isQuote c = false := fun c hc =>
    not_isQuote_of_isMarkerLetter (h.letters c hc)
  obtain ⟨n, hn⟩ : ∃ n, d.size = n + 1 := ⟨d.size - 1, by have := d.size_pos; omega⟩
  rw [hn, List.replicate_succ, List.cons_append] at hread
  have hquote : isQuote d.quote = true := by
    cases hquote : isQuote d.quote with
    | true => rfl
    | false =>
      -- the quote is a backtick, which is read as one more letter
      have hcode : d.quote.toNat = 96 := by
        have hdelimiter := h.quote
        simp only [isDelimiterQuote, Bool.or_eq_true, decide_eq_true_eq] at hdelimiter
        exact hdelimiter.resolve_left fun h => by rcases h with h | h <;> simp [isQuote, h] at hquote
      have hother : lowerMarker d.quote ∉ ['u', 'r'] := by
        rw [← Char.ofNat_toNat d.quote, hcode]
        decide
      have hnone := @Literal.decodeText?_eq_none _ (List.replicate n d.quote ++ w)
        (List.forall_mem_append.2 ⟨hletters, List.forall_mem_singleton.2 hquote⟩) _ (by simp) hother
      rw [List.append_assoc, List.singleton_append] at hnone
      rw [hnone] at hread
      simp at hread
  rw [Literal.decodeText?_append hletters ⟨_, _, rfl, hquote⟩] at hread
  obtain ⟨raw, hraw, -⟩ := Option.bind_eq_some_iff.1 hread
  have hmem := mem_of_isRawMarker? h.letters hraw
  have hplain : ∀ marker ∈ plainMarkers, marker.any (fun c => c = 'f' || c = 'F') = false ∧
      marker.any (fun c => c = 'r' || c = 'R') = false := by
    decide
  have hrawMarker : ∀ marker ∈ rawMarkers, marker.any (fun c => c = 'f' || c = 'F') = false ∧
      marker.any (fun c => c = 'r' || c = 'R') = true := by
    decide
  rw [h.format, h.raw, hraw]
  cases raw with
  | true => exact ⟨hquote, (hrawMarker marker hmem).1, by rw [(hrawMarker marker hmem).2]⟩
  | false => exact ⟨hquote, (hplain marker hmem).1, by rw [(hplain marker hmem).2]⟩

/-! ## Literals -/

theorem closes_append {d : Delimiter} {a b : Text} (h : List.replicate d.size d.quote <+: a) :
    d.closes (a ++ b) = true :=
  List.isPrefixOf_iff_prefix.2 (h.trans (List.prefix_append a b))

/-- A string that is read is a literal: the delimiter begins at none of the pieces of its body. -/
theorem exists_delimited_of_isContent {marker body u value : Text} {d : Delimiter} (h : Marks marker d)
    (hcontent : IsContent d u body)
    (hread : decodeText? (marker ++ (List.replicate d.size d.quote ++ body ++
      List.replicate d.size d.quote)) = some value) :
    ∃ l : Delimited, l.text = marker ++ (List.replicate d.size d.quote ++ body ++
      List.replicate d.size d.quote) ∧ (l.marker ∈ plainMarkers ∨ l.marker ∈ rawMarkers) := by
  obtain ⟨hquote, -, hraw⟩ := h.of_decodeText? (by rwa [List.append_assoc] at hread)
  have hdelimiter := replicate_mem_delimiters hquote
  have hfound : body? (List.replicate d.size d.quote ++ body ++ List.replicate d.size d.quote) =
      some body := by
    refine Literal.body?_append (Literal.delimiter?_append hdelimiter ?_)
    -- a body that begins with the quote would have been closed at once
    rintro q hq c hc rfl
    obtain ⟨body, rfl⟩ := List.head?_eq_some_iff.1 hc
    have hopen := hcontent.head (List.cons_ne_nil _ _)
    rw [closes_append ⟨body, by rw [hq]; rfl⟩] at hopen
    simp at hopen
  have hreadable : Readable d body := by
    rw [Literal.decodeText?_of_body? hraw (Literal.isQuote_head_of_mem_delimiters hdelimiter _) hfound] at hread
    cases hd : d.raw with
    | true => exact .inl hd
    | false =>
      rw [hd] at hread
      exact .inr (by simpa using Option.isSome_of_eq_some hread)
  obtain ⟨pieces, rfl, hunclosed⟩ := hcontent.pieces hreadable
  refine ⟨⟨marker, _, pieces, hdelimiter, fun behind hbehind hstart => ?_⟩, rfl, ?_⟩
  · by_cases hnil : behind = []
    · subst hnil
      have := List.prefix_nil.1 hstart
      rw [List.replicate_eq_nil_iff] at this
      have := d.size_pos
      omega
    · have hopen := hunclosed behind hbehind hnil
      rw [closes_append hstart] at hopen
      simp at hopen
  · have hmem := mem_of_isRawMarker? h.letters hraw
    cases hd : d.raw with
    | true => exact .inr (by simpa [hd] using hmem)
    | false => exact .inl (by simpa [hd] using hmem)

/-! ## Tokens of a string -/

/-- A string of a script over a row of tokens: its opening, its interpolations, and its end. -/
structure IsString (row : List Use) (x : Tree) (o : Use) (us : List Use) (e : Use) : Prop where
  row : o :: (us ++ [e]) <:+: row
  opening : o.token.kind = .stringStart
  closing : e.token.kind = .stringEnd
  interpolations : ∀ v ∈ us.head?, v.token.kind = .interpolationStart
  startByte : x.span.startByte = o.token.span.startByte
  endByte : x.span.endByte = e.token.span.endByte

/-- Whether a rule reads an opening, interpolations and an end. -/
def Rule.isStringRule : Rule Phrase → Bool
  | .seq (.token (.kind .stringStart)) (.seq (.many (.ref .interpolation))
      (.token (.kind .stringEnd))) => true
  | _ => false

theorem Reads.exists_of_kind {k : TokenKind} {us : List Use} {f f' : Frame}
    (h : Reads Grammar.rule (.token (.kind k)) us f f') : ∃ u, us = [u] ∧ u.token.kind = k := by
  have hacc := h.accepts
  obtain ⟨-, token, rfl⟩ := h.exists_of_token
  exact ⟨_, rfl, by simpa [Terminal.accepts] using hacc _ (List.mem_cons_self ..)⟩

/-- An interpolation begins with its brace. -/
theorem Reads.head_of_interpolation {us : List Use} {f f' : Frame}
    (h : Reads Grammar.rule (.many (.ref .interpolation)) us f f') :
    ∀ v ∈ us.head?, v.token.kind = .interpolationStart := by
  cases h with
  | manyNil => simp
  | manyCons hne ha _ =>
    have hnode : Reads Grammar.rule Grammar.interpolation _ _ _ := ha.of_ref
    cases hnode with
    | node hinner =>
      obtain ⟨vs, ws, _, heq, hvs, -⟩ := hinner.exists_of_seq
      obtain ⟨v, rfl, hv⟩ := hvs.exists_of_kind
      obtain ⟨rfl, -⟩ := List.cons.inj heq
      simpa using hv

/-- The strings of a script stand over rows of its tokens. -/
theorem Reads.exists_isString {rule : Rule Phrase} {us : List Use} {f f' : Frame}
    (h : Reads Grammar.rule rule us f f')
    (hrule : rule.every (Rule.makes (· == .string) Rule.isStringRule) = true) (hf : f.built = [])
    {x : Tree} (hx : x ∈ Tree.nodesAll f'.built) (hkind : x.kind = .string) :
    ∃ o vs e, IsString us x o vs e := by
  refine h.forall_made (P := fun x => ∃ o vs e, IsString us x o vs e) (Q := fun vs => vs <:+: us)
    (· == .string) Rule.isStringRule ?_ ?_ ?_ (fun n => by cases n <;> rfl) hrule (List.infix_refl us) hf
    x hx (beq_iff_eq.2 hkind)
  · rintro r ⟨kind, role, span, children⟩ ⟨o, vs, e, hstring⟩
    exact ⟨o, vs, e, hstring.row, hstring.opening, hstring.closing, hstring.interpolations,
      hstring.startByte, hstring.endByte⟩
  · intro k a u vs f _ hrule ha hrow
    unfold Rule.isStringRule at hrule
    split at hrule
    · obtain ⟨os, rest, _, heq, ho, hrest⟩ := ha.exists_of_seq
      obtain ⟨o, rfl, hopening⟩ := ho.exists_of_kind
      obtain ⟨ws, es, _, rfl, hws, he⟩ := hrest.exists_of_seq
      obtain ⟨e, rfl, hclosing⟩ := he.exists_of_kind
      obtain ⟨rfl, rfl⟩ := List.cons.inj heq
      refine ⟨u, ws, e, hrow, hopening, hclosing, hws.head_of_interpolation, rfl, ?_⟩
      show ((ws ++ [e]).getLastD u).token.span.endByte = _
      simp
    · simp at hrule
  · rintro vs ws hrow
    exact ⟨(List.prefix_append vs ws).isInfix.trans hrow, (List.suffix_append vs ws).isInfix.trans hrow⟩

namespace IsString

variable {row us : List Use} {x : Tree} {o e : Use}

/-- Behind the opening of a string comes its end, unless it has interpolations. -/
theorem exists_pair (h : IsString row x o us e) : ∃ X y R, Use.tokens row = X ++ o.token :: y :: R ∧
    (us = [] ∧ y = e.token ∨ y.kind = .interpolationStart) := by
  obtain ⟨U, V, hrow⟩ := h.row
  cases us with
  | nil =>
    refine ⟨Use.tokens U, e.token, Use.tokens V, ?_, .inl ⟨rfl, rfl⟩⟩
    simp [← hrow, Use.tokens]
  | cons v us =>
    refine ⟨Use.tokens U, v.token, Use.tokens (us ++ [e] ++ V), ?_, .inr (h.interpolations v rfl)⟩
    simp [← hrow, Use.tokens]

theorem end_le (h : IsString row x o us e) (horder : Token.InOrder 0 (Use.tokens row)) :
    o.token.span.endByte ≤ x.span.endByte := by
  obtain ⟨U, V, hrow⟩ := h.row
  rw [← hrow, Use.tokens_append, Token.inOrder_append, Use.tokens_append, Token.inOrder_append] at horder
  have hbounds := horder.1.2.2.2.bounds (t := e.token) (by simp)
  rw [h.endByte]
  exact Nat.le_trans hbounds.1 hbounds.2.1

end IsString

/-! ## Strings of a script -/

/-- What is written between the lexemes of two tokens that follow each other is what the scan has there. -/
theorem Mended.exists_scan_eq {source : Text} {A G B : List Placed} {p q : Placed}
    (h : Mended source (A ++ p :: (G ++ q :: B))) (hp : p.lexeme.kind ≠ .token .newline)
    (hG : ∀ g ∈ G, ∀ kind, g.lexeme.kind ≠ .token kind) (hq : q.lexeme.kind ≠ .token .newline) :
    ∃ A' B', scan source = A' ++ p.lexeme :: (G.map Placed.lexeme ++ q.lexeme :: B') := by
  have hne := fun {r} (hr : r ∈ A ++ p :: (G ++ q :: B)) => h.text_ne_nil hr
  have hfilter : G.filter (fun p => p.lexeme.text != []) = G :=
    List.filter_eq_self.2 fun g hg => by simpa using hne (by simp [hg]) (hG g hg _)
  have hscan := h.scan_eq
  rw [List.filter_append, List.filter_cons_of_pos (by simpa using hne (by simp) hp), List.filter_append,
    hfilter, List.filter_cons_of_pos (by simpa using hne (by simp) hq)] at hscan
  simp only [List.map_append, List.map_cons] at hscan
  exact ⟨_, _, hscan⟩

/-- A string of a script begins with a marker and quotes. If it has no interpolations, its content follows
    up to the same quotes again. -/
theorem exists_marks_of_string {source : Text} {root : Tree} (h : parse source = .ok root) {x : Tree}
    (hx : x ∈ root.nodes) (hkind : x.kind = .string) : ∃ marker d w, Marks marker d ∧
      (x.text source).toList = marker ++ (List.replicate d.size d.quote ++ w) ∧
      (isQuote d.quote = true → d.format = false →
        ∃ u body, IsContent d u body ∧ w = body ++ List.replicate d.size d.quote) := by
  obtain ⟨ps, us, k, hps, hus, hreads⟩ := exists_reads_of_parse h
  obtain ⟨o, vs, e, hstring⟩ : ∃ o vs e, IsString us x o vs e :=
    hreads.exists_isString rfl rfl (mem_nodesAll_of_parse h hx (by simp [hkind])) hkind
  obtain ⟨X, y, R, htokens, hy⟩ := hstring.exists_pair
  have hle := hstring.end_le (hus ▸ hps.inOrder)
  have hykind : y.kind = .stringEnd ∨ y.kind = .interpolationStart :=
    hy.imp_left fun ⟨_, heq⟩ => heq ▸ hstring.closing
  rw [hus] at htokens
  obtain ⟨A, p, G, q, B, rfl, hp, hptoken, hq, hqtoken, hG⟩ := exists_of_layout_eq_pair htokens
    (by simp [Token.isLayout, hstring.opening]) (by rcases hykind with h | h <;> simp [Token.isLayout, h])
  -- the scan takes the content of the string up to the lexeme of the token behind the opening
  have hopening := hstring.opening ▸ hp
  obtain ⟨A', B', hscan⟩ := hps.exists_scan_eq (by simp [hopening]) hG
    (by rw [hq]; rcases hykind with h | h <;> simp [h])
  obtain ⟨marker, d, hmarker, hmarks, hcontent⟩ := exists_of_scan_string hscan hopening
    (List.forall_mem_map.2 hG) hq (by rcases hykind with h | h <;> simp [h])
  obtain ⟨rest, hsource, hpstart, hpend, hqend⟩ := hps.cover.exists_between
  rw [show p.span = o.token.span from congrArg Token.span hptoken] at hpstart hpend
  rw [show q.span = y.span from congrArg Token.span hqtoken] at hqend
  have htext : (x.text source).toList = source.slice (written A).size x.span.endByte := by
    rw [Tree.text, String.toList_ofList, hstring.startByte, hpstart]
  obtain ⟨w, hw⟩ : ∃ w, (x.text source).toList = p.lexeme.text ++ w := by
    rw [htext]
    have hcut := (isCut_of_parse h x hx).2
    rw [hsource, List.append_assoc, List.append_assoc, ← List.append_assoc] at hcut ⊢
    exact Text.exists_slice_eq_append hcut (hpend ▸ hle)
  refine ⟨marker, d, w, hmarks, by rw [hw, hmarker, List.append_assoc], fun hquote hformat => ?_⟩
  obtain ⟨hend, hclosing, u, hbody⟩ := hcontent hquote hformat
  obtain ⟨rfl, rfl⟩ : vs = [] ∧ y = e.token := hy.resolve_right fun hinterpolation => by
    rw [hend] at hinterpolation
    simp at hinterpolation
  refine ⟨u, _, hbody, ?_⟩
  rw [htext, hstring.endByte, hqend, hsource, Text.slice_append] at hw
  rw [← List.append_cancel_left hw, hclosing, List.flatMap_map]
  rfl

/-- A string of a script that is read is a literal. -/
theorem exists_delimited_of_string {source : Text} {root : Tree} (h : parse source = .ok root) {x : Tree}
    (hx : x ∈ root.nodes) (hkind : x.kind = .string) {value : String}
    (hread : decode? (x.text source) = some value) : ∃ l : Delimited,
      l.text = (x.text source).toList ∧ (l.marker ∈ plainMarkers ∨ l.marker ∈ rawMarkers) := by
  obtain ⟨marker, d, w, hmarks, htext, hcontent⟩ := exists_marks_of_string h hx hkind
  obtain ⟨value, hread, -⟩ := Option.map_eq_some_iff.1 hread
  rw [htext] at hread ⊢
  obtain ⟨hquote, hformat, -⟩ := hmarks.of_decodeText? hread
  obtain ⟨u, body, hbody, rfl⟩ := hcontent hquote hformat
  rw [← List.append_assoc (List.replicate d.size d.quote)] at hread ⊢
  exact exists_delimited_of_isContent hmarks hbody hread

/-- A string of a script that is read evaluates to what it is read as if there is no carriage return in
    it, and to something else if there is one. -/
theorem evaluates_iff_of_string {source : Text} {root : Tree} (h : parse source = .ok root) {x : Tree}
    (hx : x ∈ root.nodes) (hkind : x.kind = .string) {value : String}
    (hread : decode? (x.text source) = some value) :
    Evaluates (x.text source).toList value.toList ↔ '\r' ∉ (x.text source).toList := by
  obtain ⟨l, htext, hmarker⟩ := exists_delimited_of_string h hx hkind hread
  obtain ⟨t, ht, rfl⟩ := Option.map_eq_some_iff.1 hread
  rw [← htext] at ht ⊢
  rw [String.toList_ofList]
  exact Literal.evaluates_iff hmarker ht

end Redeploy.Syntax
