import Redeploy.Syntax.Lexeme

set_option autoImplicit false

/-! # Steps of the scan

What the scan does with one lexeme (`scanWith_cons`), and which characters are no part of any mark of
the language (`nextInCode_strange`): those beyond ASCII that neither are blank nor start a name. Of a
string it is known how it is opened (`exists_of_opening?`), and where its content ends
(`head_of_contentLength`). -/

namespace Redeploy.Syntax

/-- The scan takes the lexeme at the start of a text and goes on behind it. -/
theorem scanWith_cons {steps : Nat} {modes modes' : List Mode} {kind : LexemeKind} {a b : Text}
    (ha : a ≠ []) (h : nextLexeme modes (a ++ b) = (kind, a.length, modes')) :
    scanWith (steps + 1) modes (a ++ b) = ⟨kind, a⟩ :: scanWith steps modes' b := by
  cases a with
  | nil => exact absurd rfl ha
  | cons c a =>
    rw [List.cons_append] at h ⊢
    have htake : (a ++ b).take a.length = a := by simp
    have hdrop : (a ++ b).drop a.length = b := by simp
    simp only [scanWith, h, List.length_cons, Nat.add_sub_cancel, htake, hdrop]

/-- The text of a lexeme that goes up to a known point. -/
theorem cons_take {c : Char} {t a b : Text} (h : c :: t = a ++ b) (ha : a ≠ []) :
    c :: t.take (a.length - 1) = a := by
  obtain ⟨d, a, rfl⟩ := List.exists_cons_of_ne_nil ha
  obtain ⟨rfl, rfl⟩ := List.cons.inj h
  simp

theorem runLength_append {p : Char → Bool} {a b : Text} (ha : ∀ c ∈ a, p c = true)
    (hb : ∀ c, b.head? = some c → p c = false) : runLength p (a ++ b) = a.length := by
  rw [runLength, List.takeWhile_append_of_pos ha]
  cases b with
  | nil => simp
  | cons c b => simp [hb c rfl]

/-! ## Characters that are no part of a mark -/

/-- The characters that are blank between marks. -/
def gapCodes : List Nat := [32, 9, 11, 12, 13, 0xFEFF, 0x2060, 0x200B]

/-- What holds of each blank character in turn holds of all of them. -/
theorem forall_of_isGap {P : Char → Prop} (h : ∀ n ∈ gapCodes, P (Char.ofNat n)) {c : Char}
    (hc : isGap c = true) : P c := by
  have hmem : c.toNat ∈ gapCodes := by
    simp only [isGap, Bool.or_eq_true, decide_eq_true_eq] at hc
    simp only [gapCodes, List.mem_cons, List.not_mem_nil]
    omega
  rw [← Char.ofNat_toNat c]
  exact h c.toNat hmem

theorem take_runLength (p : Char → Bool) (t : Text) : t.take (runLength p t) = t.takeWhile p := by
  induction t with
  | nil => rfl
  | cons c t ih =>
    unfold runLength at *
    by_cases hc : p c = true <;> simp [hc, ih]

theorem drop_runLength (p : Char → Bool) (t : Text) : t.drop (runLength p t) = t.dropWhile p := by
  induction t with
  | nil => rfl
  | cons c t ih =>
    unfold runLength at *
    by_cases hc : p c = true <;> simp [hc, ih]

/-- Nothing that is of a class follows a run of that class. -/
theorem head_drop_runLength {p : Char → Bool} {t : Text} :
    ∀ c ∈ (t.drop (runLength p t)).head?, p c = false := by
  intro c hc
  rw [drop_runLength] at hc
  have := List.head?_dropWhile_not p t
  rw [Option.mem_def] at hc
  simpa [hc] using this

theorem runLength_pos {p : Char → Bool} {c : Char} {t : Text} (hc : p c = true) :
    max (runLength p (c :: t)) 1 = runLength p (c :: t) := by
  simp [runLength, hc]

theorem continuesIdentifier_of_startsIdentifier {c : Char} (h : startsIdentifier c = true) :
    continuesIdentifier c = true := by
  unfold continuesIdentifier
  split
  · next hc =>
    simp only [startsIdentifier, hc, if_true, Bool.or_eq_true] at h
    simp only [Bool.or_eq_true]
    exact h.imp_left .inl
  · rw [h, Bool.true_or]

theorem numberLength_eq_zero {c : Char} {t : Text} (hdigit : isAsciiDigit c = false)
    (hpoint : c ≠ '.') : numberLength (c :: t) = (0, false) := by
  have hzero : c ≠ '0' := by
    rintro rfl
    simp [isAsciiDigit] at hdigit
  have hwhole : digitsLength false (c :: t) = 0 := by simp [digitsLength, hdigit]
  have hbased : basedLength (c :: t) = 0 := by
    unfold basedLength
    split
    · next heq => exact absurd (List.cons.inj heq).1 hzero
    · rfl
  unfold numberLength
  simp only [hbased, hwhole, List.drop_zero, ne_eq, not_true_eq_false, if_false]
  split
  · next heq => exact absurd (List.cons.inj heq).1 hpoint
  · rfl

theorem symbolLength_eq_zero {c : Char} {t : Text} (hc : 128 ≤ c.toNat) :
    symbolLength (c :: t) = 0 := by
  have hascii : ∀ s ∈ symbols, s.head?.all (fun d => decide (d.toNat < 128)) = true ∧ s ≠ [] := by
    decide
  have hnone : symbols.find? (fun s => s.isPrefixOf (c :: t)) = none := by
    rw [List.find?_eq_none]
    intro s hs hpre
    obtain ⟨hhead, hne⟩ := hascii s hs
    cases s with
    | nil => exact hne rfl
    | cons d s =>
      simp only [List.head?_cons, Option.all_some, decide_eq_true_eq] at hhead
      simp only [List.isPrefixOf, Bool.and_eq_true, beq_iff_eq] at hpre
      rw [hpre.1] at hhead
      omega
  rw [symbolLength, hnone]

theorem ne_of_toNat {c d : Char} (hc : 128 ≤ c.toNat) (hd : d.toNat < 128) : c ≠ d := by
  rintro rfl
  omega

theorem opening?_eq_none {c : Char} {t : Text} (hletter : isMarkerLetter c = false)
    (hquote : isDelimiterQuote c = false) : Delimiter.opening? (c :: t) = none := by
  have hmarker : (c :: t).takeWhile isMarkerLetter = [] := by simp [hletter]
  simp [Delimiter.opening?, hmarker, hquote]

theorem nextSymbol_strange {modes : List Mode} {c : Char} {t : Text} (hc : 128 ≤ c.toNat) :
    nextSymbol modes (c :: t) = (.token .bad, 1, noteProgress false modes) := by
  unfold nextSymbol
  split
  · next heq => exact absurd (List.cons.inj heq).1 (ne_of_toNat hc (by decide))
  · next heq => exact absurd (List.cons.inj heq).1 (ne_of_toNat hc (by decide))
  · next heq => exact absurd (List.cons.inj heq).1 (ne_of_toNat hc (by decide))
  · next heq =>
    simp [symbolLength_eq_zero hc]
  · next heq => simp at heq

/-- A character beyond ASCII that neither is blank nor starts a name is no part of a mark. -/
theorem nextInCode_strange {modes : List Mode} {c : Char} {t : Text} (hc : 128 ≤ c.toNat)
    (hgap : isGap c = false) (hstart : startsIdentifier c = false) :
    nextInCode modes (c :: t) = (.token .bad, 1, noteProgress false modes) := by
  have hne : ∀ d : Char, d.toNat < 128 → c ≠ d := fun d hd => ne_of_toNat hc hd
  have hletter : isMarkerLetter c = false := by
    simp [isMarkerLetter, hne]
  have hquote : isDelimiterQuote c = false := by
    have hcode : c.toNat ≠ 96 := by omega
    simp [isDelimiterQuote, hne, hcode]
  have hdigit : isAsciiDigit c = false := by
    simp [isAsciiDigit]
    omega
  simp only [nextInCode, hne '\n' (by decide), hgap, hne '#' (by decide), hne '\\' (by decide),
    opening?_eq_none hletter hquote, hstart, numberLength_eq_zero hdigit (hne '.' (by decide)),
    nextSymbol_strange hc]
  simp

/-! ## The bounds of a string -/

theorem Delimiter.size_pos (d : Delimiter) : 0 < d.size := by
  unfold size
  split <;> omega

theorem exists_replicate_append {q : Char} {rest : Text} {triple : Bool}
    (h : triple = true → [q, q].isPrefixOf rest = true) :
    ∃ r, q :: rest = List.replicate (if triple then 3 else 1) q ++ r := by
  cases triple with
  | false => exact ⟨rest, rfl⟩
  | true =>
    obtain ⟨r, rfl⟩ := List.isPrefixOf_iff_prefix.1 (h rfl)
    exact ⟨r, rfl⟩

/-- The letters in front of a string, and how they tell that it is read. -/
structure Marks (marker : Text) (d : Delimiter) : Prop where
  letters : ∀ c ∈ marker, isMarkerLetter c = true
  quote : isDelimiterQuote d.quote = true
  format : d.format = marker.any fun c => c = 'f' || c = 'F'
  raw : d.raw = marker.any fun c => c = 'r' || c = 'R'

/-- The opening of a string is a marker and the quotes behind it. -/
theorem exists_of_opening? {t : Text} {n : Nat} {d : Delimiter} (h : Delimiter.opening? t = some (n, d)) :
    ∃ marker rest, t = marker ++ List.replicate d.size d.quote ++ rest ∧
      n = (marker ++ List.replicate d.size d.quote).length ∧ Marks marker d := by
  unfold Delimiter.opening? at h
  simp only at h
  split at h
  · next q rest hdrop =>
    split at h
    · next hquote =>
      obtain ⟨rfl, rfl⟩ := Prod.mk.inj (Option.some.inj h)
      have hsplit : t = t.takeWhile isMarkerLetter ++ q :: rest := by
        rw [← hdrop]
        exact (List.takeWhile_append_dropWhile ..).symm.trans (by rw [← drop_runLength]; rfl)
      have hletters := List.all_eq_true.1 (List.all_takeWhile (p := isMarkerLetter) (l := t))
      generalize t.takeWhile isMarkerLetter = marker at hsplit hletters ⊢
      subst hsplit
      obtain ⟨r, hr⟩ := @exists_replicate_append q rest (q.toNat ≠ 96 && [q, q].isPrefixOf rest)
        fun htriple => (Bool.and_eq_true _ _ ▸ htriple).2
      refine ⟨marker, r, ?_, by simp, hletters, hquote, rfl, rfl⟩
      rw [hr, List.append_assoc]
      rfl
    · simp at h
  · simp at h

theorem oneMore_ne_zero (r : Nat × ContentEnd) : (ContentEnd.oneMore r).1 ≠ 0 := by
  simp [ContentEnd.oneMore]

/-- Where the content of a string ends at once, its delimiter, a brace or a fault comes next. -/
theorem head_of_contentLength {d : Delimiter} {first : Bool} {t : Text} {e : ContentEnd}
    (h : contentLength d 0 first t = (0, e)) :
    (e = .quote → d.closes t = true) ∧ (e = .brace → ∃ r, t = '\x7b' :: r) := by
  cases t with
  | nil =>
    simp only [contentLength, Prod.mk.injEq, true_and] at h
    subst h
    simp
  | cons c t =>
    have hmore : ∀ r : Nat × ContentEnd, ContentEnd.oneMore r ≠ (0, e) := fun r hr =>
      oneMore_ne_zero r (congrArg Prod.fst hr)
    rw [contentLength] at h
    split at h
    · next hcloses =>
      simp only [Prod.mk.injEq, true_and] at h
      subst h
      exact ⟨fun _ => hcloses, by simp⟩
    · split at h
      · split at h <;> exact absurd h (hmore _)
      · split at h
        · split at h
          · exact absurd h (hmore _)
          · simp only [Prod.mk.injEq, true_and] at h
            subst h
            refine ⟨by split <;> simp, ?_⟩
            split
            · next hc => simp [hc]
            · simp
        · split at h
          · simp only [Prod.mk.injEq, true_and] at h
            subst h
            simp
          · exact absurd h (hmore _)

end Redeploy.Syntax
