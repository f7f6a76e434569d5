import Redeploy.Proofs.Yaml.Glyph

set_option autoImplicit false

/-! # Scalars without quotes are read back

A text that may be written without quotes is read as far as it goes, wherever in a line it stands, and
ends in front of a colon with a gap behind it (`Plain.read?_key`) or at the end of its line, if the next
line does not lie as deep (`Plain.exists_read?_line`). -/

namespace Redeploy.Yaml

variable {line column inner k : Nat} {c d p : Char} {b t u read : Text}

/-! ## What a text without quotes is like -/

theorem Written.hasAdjacent_cons {p q : Char → Bool} : hasAdjacent p q (c :: t) = false ↔
    (p c = true → ∀ d ∈ t.head?, q d = false) ∧ hasAdjacent p q t = false := by
  cases t with
  | nil => simp [hasAdjacent]
  | cons d t => simp [hasAdjacent]

theorem Written.isPrintable_of_needsEscapes (h : needsEscapes t = false) :
    ∀ c ∈ t, isPrintable c = true := by
  simp only [needsEscapes, Bool.or_eq_false_iff, Bool.not_eq_false'] at h
  exact List.all_eq_true.1 h.1

/-- What makes sure that a text can be written without quotes. -/
theorem Written.allowsPlain_spec (h : allowsPlain t = true) :
    (∀ c ∈ t, isPrintable c = true) ∧ (∀ c ∈ t, isBreak c = false) ∧ t.head? ≠ some ' ' ∧
      t.getLast? ≠ some ' ' ∧ startsWithMarker t = false ∧ startsWithIndicator t = false ∧
      hasIndicator t = false := by
  simp only [allowsPlain, Bool.not_eq_true', Bool.or_eq_false_iff, hasAtEnds] at h
  obtain ⟨⟨⟨⟨⟨hescapes, hhead, hlast⟩, hbreak⟩, hmarker⟩, hstart⟩, hindicator⟩ := h
  refine ⟨isPrintable_of_needsEscapes hescapes, ?_, ?_, ?_, hmarker, hstart, hindicator⟩
  · simpa using hbreak
  · rintro heq
    simp [heq] at hhead
  · rintro heq
    simp [heq] at hlast

/-! ## Within the text -/

namespace Plain

/-- A colon that ends no scalar has no gap behind it. -/
theorem wordEnds_eq_false (h : (d == ':' && Written.startsWithGap t) = false) (g : Glyph)
    (hg : g.char = d) (line column : Nat) (u : Text) :
    wordEnds false g (glyphsFrom line column (t ++ u)) = false := by
  rw [wordEnds, hg, Bool.false_and, Bool.or_false]
  by_cases hd : d = ':'
  · subst hd
    cases t with
    | nil => simp [Written.startsWithGap] at h
    | cons e t =>
      have hgap : Written.isGapChar e = false := by simpa [Written.startsWithGap] using h
      simp only [Written.isGapChar, Bool.or_eq_false_iff] at hgap
      simp [glyphsFrom, atGap, hgap.1.1.1, hgap.1.1.2]
  · simp [hd]

/-- A text is read to its end behind a character that it goes on from. -/
theorem readFrom_within (hline : ∀ c ∈ t, isBreak c = false) (htab : ∀ c ∈ t, c ≠ '\t')
    (hind : Written.hasIndicator (p :: t) = false) (hgap : b ≠ [] → p = ' ')
    (hlast : (p :: t).getLast? ≠ some ' ') (hinner : b ≠ [] ∨ ' ' ∈ t → inner ≤ column)
    (hcolumn : column ≠ 0) :
    readFrom inner false read (.blanks b) (glyphsFrom line column (t ++ u)) =
      readFrom inner false (t.reverse ++ (b.reverse ++ read)) .none
        (glyphsFrom line (column + t.length) u) := by
  induction t generalizing p b read column with
  | nil =>
    cases b with
    | nil => rfl
    | cons => exact absurd (by rw [hgap (List.cons_ne_nil _ _)]; rfl) hlast
  | cons d t ih =>
    obtain ⟨hd, hrest⟩ := List.forall_mem_cons.1 hline
    obtain ⟨hdtab, hresttab⟩ := List.forall_mem_cons.1 htab
    simp only [Written.hasIndicator, Bool.or_eq_false_iff] at hind
    obtain ⟨⟨hcolon, hmark⟩, hind⟩ := hind
    rw [List.getLast?_cons_cons] at hlast
    rw [List.cons_append, glyphsFrom_cons hd, readFrom]
    by_cases hspace : d = ' '
    · subst hspace
      rw [if_pos (by rfl)]
      simp only [Gap.isBreaks, Bool.false_and, Bool.false_eq_true, if_false, Gap.addBlank]
      have hinner' : inner ≤ column + 1 := Nat.le_succ_of_le (hinner (.inr (List.mem_cons_self ..)))
      rw [ih hrest hresttab hind (fun _ => rfl) hlast (fun _ => hinner') (by omega)]
      simp [Nat.add_comm, Nat.add_left_comm]
    · have hblank : isBlank d = false := by simp [isBlank, hspace, hdtab]
      have hends : (!(Gap.blanks b).isNone && endsBehindGap inner false ⟨d, line, column⟩
          (glyphsFrom line (column + 1) (t ++ u))) = false := by
        rw [endsBehindGap, atDocumentMarker_of_column (g := ⟨d, line, column⟩) hcolumn]
        by_cases hb : b = []
        · simp [hb, Gap.isNone]
        · have hp : Written.isGapChar p = true := by
            rw [hgap hb]
            decide
          have hd' : d ≠ '#' := by simpa [hp] using hmark
          simp [hd', Nat.not_lt.2 (hinner (.inl hb))]
      have hends' := wordEnds_eq_false hcolon ⟨d, line, column⟩ rfl line (column + 1) u
      simp only [hblank, hd, hends, hends', isUnclearColon, Bool.false_and, Bool.false_eq_true, if_false]
      have hinner' : ([] : Text) ≠ [] ∨ ' ' ∈ t → inner ≤ column + 1 := fun h =>
        Nat.le_succ_of_le (hinner (.inr (List.mem_cons_of_mem d (h.resolve_left fun hne => hne rfl))))
      refine (ih (b := []) hrest hresttab hind (by simp) hlast hinner' (by omega)).trans ?_
      simp [Gap.folded, Nat.add_comm, Nat.add_left_comm]

/-! ## The whole scalar -/

/-- A text that may be written without quotes is read to its end. Only behind a gap it matters how deep
    it lies. -/
theorem read?_append (h : Written.allowsPlain t = true) (ht : t ≠ []) (hinner : ' ' ∈ t → inner ≤ column) :
    read? inner false (glyphsFrom line column (t ++ u)) =
      readFrom inner false t.reverse .none (glyphsFrom line (column + t.length) u) := by
  obtain ⟨hprint, hline, hhead, hlast, -, hstart, hind⟩ := Written.allowsPlain_spec h
  obtain ⟨c, t, rfl⟩ := List.exists_cons_of_ne_nil ht
  obtain ⟨hc, hrest⟩ := List.forall_mem_cons.1 hline
  obtain ⟨hcprint, hprint⟩ := List.forall_mem_cons.1 hprint
  have hblank : isBlank c = false := by
    have hspace : c ≠ ' ' := fun heq => hhead (by rw [heq]; rfl)
    simp [isBlank, hspace, (isPrintable_spec hcprint).2.2.1]
  have hcolon : (c == ':' && Written.startsWithGap t) = false := by
    simp only [Written.startsWithIndicator, Bool.or_eq_false_iff] at hstart
    by_cases hc : c = ':'
    · simpa [hc] using hstart.2
    · simp [hc]
  have hends := wordEnds_eq_false hcolon ⟨c, line, column⟩ rfl line (column + 1) u
  have hnone : Gap.none.isNone = true := rfl
  rw [read?, List.cons_append, glyphsFrom_cons hc, readFrom]
  simp only [hblank, hc, hends, hnone, isUnclearColon, Bool.false_and, Bool.not_true, Bool.false_eq_true,
    if_false]
  have hinner' : ([] : Text) ≠ [] ∨ ' ' ∈ t → inner ≤ column + 1 := fun h =>
    Nat.le_succ_of_le (hinner (List.mem_cons_of_mem c (h.resolve_left fun hne => hne rfl)))
  refine (readFrom_within (b := []) hrest (fun d hd => (isPrintable_spec (hprint d hd)).2.2.1) hind
    (by simp) hlast hinner' (by omega)).trans ?_
  simp [Gap.folded, Gap.none, Nat.add_comm, Nat.add_left_comm]

/-- A key is read up to its colon. -/
theorem read?_key (h : Written.allowsPlain t = true) (ht : t ≠ []) (hspace : ' ' ∉ t) (inner : Nat)
    (hu : atGap (glyphsFrom line (column + t.length + 1) u) = true) :
    read? inner false (glyphsFrom line column (t ++ ':' :: u)) =
      some (t, .none, glyphsFrom line (column + t.length) (':' :: u)) := by
  have hcolon : isBreak ':' = false := rfl
  have hends : wordEnds false ⟨':', line, column + t.length⟩
      (glyphsFrom line (column + t.length + 1) u) = true := by
    simp [wordEnds, hu]
  have hnone : Gap.none.isNone = true := rfl
  have hblank : isBlank ':' = false := rfl
  rw [read?_append h ht fun hmem => absurd hmem hspace, glyphsFrom_cons hcolon, readFrom]
  simp only [hblank, hcolon, hends, hnone, isUnclearColon, Bool.false_and, Bool.not_true,
    Bool.false_eq_true, if_false, if_true, List.reverse_reverse]

end Plain

/-! ## The end of the line -/

/-- What may follow a scalar of a block: nothing, or a line that does not lie as deep as the block. -/
inductive Follows (inner : Nat) : Text → Prop
  | nothing : Follows inner []
  | line {k : Nat} {c : Char} {t : Text} (hk : k < inner) (hblank : isBlank c = false)
    (hbreak : isBreak c = false) : Follows inner (List.replicate k ' ' ++ c :: t)

/-- Reading goes on behind both glyphs alike. -/
structure SkipsTo (gs gs' : List Glyph) : Prop where
  skipGap : ∀ s : Layout, s.skipGap false gs = s.skipGap false gs'
  length : gs'.length ≤ gs.length

theorem Layout.skipGap_spaces (s : Layout) (line column k : Nat) (t : Text) :
    s.skipGap false (glyphsFrom line column (List.replicate k ' ' ++ t)) =
      s.skipGap false (glyphsFrom line (column + k) t) := by
  induction k generalizing column with
  | zero => rfl
  | succ k ih =>
    rw [List.replicate_succ, List.cons_append, glyphsFrom_cons rfl, Layout.skipGap]
    have hbreak : isBreak ' ' = false := rfl
    simp only [hbreak, Bool.false_eq_true, if_false, beq_self_eq_true, Bool.or_true, Bool.true_or, if_true]
    rw [ih, Nat.add_assoc, Nat.add_comm 1]

theorem SkipsTo.spaces (line column k : Nat) (t : Text) :
    SkipsTo (glyphsFrom line column (List.replicate k ' ' ++ t)) (glyphsFrom line (column + k) t) where
  skipGap s := s.skipGap_spaces line column k t
  length := by simp [length_glyphsFrom]

namespace Plain

theorem readFrom_spaces {first more : Text} (k column : Nat) :
    readFrom inner false read (.breaks first more)
        (glyphsFrom line column (List.replicate k ' ' ++ u)) =
      readFrom inner false read (.breaks first more) (glyphsFrom line (column + k) u) := by
  induction k generalizing column with
  | zero => rfl
  | succ k ih =>
    rw [List.replicate_succ, List.cons_append, glyphsFrom_cons rfl, readFrom]
    have hblank : isBlank ' ' = true := rfl
    have htab : (' ' == '\t') = false := rfl
    simp only [hblank, htab, Bool.and_false, Bool.false_and, Bool.false_eq_true, if_false, if_true,
      Gap.addBlank]
    rw [ih, Nat.add_assoc, Nat.add_comm 1]

/-- A scalar that is the last one on its line ends there, if the next line does not lie as deep. -/
theorem exists_readFrom_line (h : Follows inner u) (read : Text) : ∃ gap rest,
    readFrom inner false read .none (glyphsFrom line column ('\n' :: u)) =
      some (read.reverse, gap, rest) ∧ gap.isBreaks = true ∧
      SkipsTo (glyphsFrom (line + 1) 0 u) rest := by
  have hblank : isBlank '\n' = false := rfl
  have hbreak : isBreak '\n' = true := rfl
  rw [glyphsFrom_break hbreak, readFrom]
  simp only [hblank, hbreak, Bool.false_eq_true, if_false, if_true, Gap.none, Gap.addBreak]
  cases h with
  | nothing => exact ⟨_, [], rfl, rfl, fun _ => rfl, Nat.le_refl _⟩
  | @line k c t hk hblank hbreak =>
    rw [readFrom_spaces, Nat.zero_add, glyphsFrom_cons hbreak, readFrom]
    have hends : endsBehindGap inner false ⟨c, line + 1, k⟩ (glyphsFrom (line + 1) (k + 1) t) = true := by
      simp [endsBehindGap, hk]
    have hgap : (Gap.breaks ['\n'] []).isNone = false := rfl
    simp only [hblank, hbreak, hends, hgap, Bool.not_false, Bool.and_self, Bool.false_eq_true, if_false,
      if_true]
    refine ⟨_, _, rfl, rfl, ?_⟩
    have hskips := SkipsTo.spaces (line + 1) 0 k (c :: t)
    rwa [Nat.zero_add, glyphsFrom_cons hbreak] at hskips

/-- A text that may be written without quotes is read back from its line. -/
theorem exists_read?_line (h : Written.allowsPlain t = true) (ht : t ≠ []) (hinner : inner ≤ column)
    (hu : Follows inner u) (line : Nat) : ∃ gap rest,
      read? inner false (glyphsFrom line column (t ++ '\n' :: u)) = some (t, gap, rest) ∧
      gap.isBreaks = true ∧ SkipsTo (glyphsFrom (line + 1) 0 u) rest := by
  obtain ⟨gap, rest, hread, hgap, hrest⟩ := exists_readFrom_line hu t.reverse
  refine ⟨gap, rest, ?_, hgap, hrest⟩
  rw [read?_append h ht fun _ => hinner, hread, List.reverse_reverse]

end Plain

end Redeploy.Yaml
