import Redeploy.Proofs.Text.Numeral
import Redeploy.Proofs.Yaml.Plain

set_option autoImplicit false

/-! # Words

A text of name characters is written as it is (`Written.allowsPlain_of_name`). The digits of a number are
one, and they are read as the number (`Implicit.nat?_toDigits`). -/

namespace Redeploy.Yaml

variable {c d : Char} {t : Text} {n : Nat}

namespace Written

/-- Nothing gets in the way of a name character. -/
theorem isNameChar_spec (h : isNameChar c = true) : isPrintable c = true ∧ isGapChar c = false ∧
    ∀ d, isNameChar d = false → c ≠ d := by
  have hne : ∀ d, isNameChar d = false → c ≠ d := by
    rintro d hd rfl
    simp [h] at hd
  refine ⟨?_, ?_, hne⟩
  · simp only [isNameChar, isAsciiLetter, isAsciiDigit, Bool.or_eq_true, Bool.and_eq_true,
      decide_eq_true_eq, beq_iff_eq] at h
    have hcode : (48 ≤ c.toNat ∧ c.toNat ≤ 122) ∨ c.toNat = 45 := by
      rcases h with ((h | h) | rfl) | rfl
      · omega
      · omega
      · exact .inl (by decide)
      · exact .inr rfl
    simp only [isPrintable, Bool.or_eq_true, Bool.and_eq_true, beq_iff_eq, decide_eq_true_eq]
    omega
  · simp [isGapChar, isBlank, isBreak, hne _ (by decide : isNameChar ' ' = false),
      hne _ (by decide : isNameChar '\t' = false), hne _ (by decide : isNameChar '\n' = false),
      hne _ (by decide : isNameChar '\r' = false), hne _ (by decide : isNameChar nextLine = false),
      hne _ (by decide : isNameChar lineSeparator = false),
      hne _ (by decide : isNameChar paragraphSeparator = false)]

theorem hasAdjacent_eq_false {p q : Char → Bool} (h : ∀ c ∈ t, p c = false) : hasAdjacent p q t = false := by
  induction t with
  | nil => rfl
  | cons c t ih =>
    obtain ⟨hc, ht⟩ := List.forall_mem_cons.1 h
    exact hasAdjacent_cons.2 ⟨fun hp => by simp [hc] at hp, ih ht⟩

theorem hasIndicator_eq_false (h : ∀ c ∈ t, c ≠ ':' ∧ c ≠ '#') : hasIndicator t = false := by
  induction t with
  | nil => rfl
  | cons c t ih =>
    have ht := (List.forall_mem_cons.1 h).2
    cases t with
    | nil => rfl
    | cons d t =>
      have hd := ht d (List.mem_cons_self ..)
      rw [hasIndicator, ih ht]
      simp [hd]

/-- A text of name characters that does not start with a dash is written without quotes. -/
theorem allowsPlain_of_name (h : ∀ c ∈ t, isNameChar c = true) (hhead : ∀ c ∈ t.head?, c ≠ '-') :
    allowsPlain t = true := by
  have hne : ∀ c ∈ t, ∀ d, isNameChar d = false → c ≠ d := fun c hc => (isNameChar_spec (h c hc)).2.2
  have hspace : ∀ c ∈ t, (c == ' ') = false := fun c hc => by simp [hne c hc ' ' rfl]
  have hescapes : needsEscapes t = false := by
    have hprint : t.all isPrintable = true := List.all_eq_true.2 fun c hc => (isNameChar_spec (h c hc)).1
    simp [needsEscapes, hprint, hasAdjacent_eq_false hspace]
  have hends : hasAtEnds (· == ' ') t = false := by
    simp only [hasAtEnds, Bool.or_eq_false_iff, Option.any_eq_false]
    exact ⟨fun c hc => hspace c (List.mem_of_head? hc), fun c hc => hspace c (List.mem_of_getLast? hc)⟩
  have hbreaks : t.any isBreak = false := by
    simp only [List.any_eq_false, Bool.not_eq_true]
    intro c hc
    have hgap := (isNameChar_spec (h c hc)).2.1
    simp only [isGapChar, Bool.or_eq_false_iff] at hgap
    exact hgap.1.1.2
  have hmarker : startsWithMarker t = false := by
    cases t with
    | nil => rfl
    | cons c t =>
      have hpoint := hne c (List.mem_cons_self ..) '.' rfl
      simp [startsWithMarker, List.isPrefixOf, Ne.symm (hhead c rfl), hpoint.symm]
  have hstart : startsWithIndicator t = false := by
    cases t with
    | nil => rfl
    | cons c t =>
      have hc := hne c (List.mem_cons_self ..)
      have hall : ("#,[]&*!|>'\"%@`?:\x7b\x7d".toList.all fun d => !isNameChar d) = true := by decide
      have hothers : ∀ d ∈ "#,[]&*!|>'\"%@`?:\x7b\x7d".toList, c ≠ d := fun d hd =>
        hc d (by simpa using List.all_eq_true.1 hall d hd)
      simp only [String.reduceToList, List.forall_mem_cons] at hothers
      simp [startsWithIndicator, hothers, hhead c rfl]
  have hindicator : hasIndicator t = false :=
    hasIndicator_eq_false fun c hc => ⟨hne c hc ':' rfl, hne c hc '#' rfl⟩
  simp [allowsPlain, hescapes, hends, hbreaks, hmarker, hstart, hindicator]

end Written

/-! ## Numbers -/

theorem isAsciiDigit_of_mem_toDigits (h : c ∈ Nat.toDigits 10 n) : isAsciiDigit c = true := by
  obtain ⟨hle, hge⟩ := Char.isDigit_iff_toNat.1 (Nat.isDigit_of_mem_toDigits (by decide) (Nat.le_refl 10) h)
  exact Bool.and_eq_true_iff.2 ⟨decide_eq_true hle, decide_eq_true hge⟩

theorem Written.allowsPlain_toDigits (n : Nat) : allowsPlain (Nat.toDigits 10 n) = true := by
  refine allowsPlain_of_name (fun c hc => ?_) ?_
  · rw [isNameChar, isAsciiDigit_of_mem_toDigits hc, Bool.or_true]
    rfl
  · rintro c hc rfl
    cases isAsciiDigit_of_mem_toDigits (List.mem_of_head? hc)

/-- Only zero starts with a zero. -/
theorem eq_nil_of_toDigits (h : Nat.toDigits 10 n = '0' :: t) : t = [] := by
  induction n using Nat.strongRecOn generalizing t with
  | ind n ih =>
    by_cases hn : n < 10
    · rw [Nat.toDigits_of_lt_base hn] at h
      exact (List.cons.inj h).2.symm
    · rw [Nat.toDigits_of_base_le (by decide) (Nat.le_of_not_lt hn)] at h
      obtain ⟨c, r, hcr⟩ := List.exists_cons_of_ne_nil (Nat.toDigits_ne_nil (n := n / 10) (b := 10))
      rw [hcr, List.cons_append] at h
      obtain ⟨rfl, -⟩ := List.cons.inj h
      obtain rfl := ih (n / 10) (by omega) hcr
      have hread := readNat?_toDigits (show 1 < 10 by decide) (spells_id (by decide)) (n / 10)
      rw [List.map_id, hcr] at hread
      have hzero : 0 = n / 10 := Option.some.inj hread
      omega

namespace Implicit

/-- A number is read back from its digits. -/
theorem nat?_toDigits (n : Nat) : nat? (Nat.toDigits 10 n) = some n := by
  have hread := readNat?_toDigits (show 1 < 10 by decide) (spells_id (by decide)) n
  rw [List.map_id] at hread
  obtain ⟨c, r, hcr⟩ := List.exists_cons_of_ne_nil (Nat.toDigits_ne_nil (n := n) (b := 10))
  have hdigit : isAsciiDigit c = true := isAsciiDigit_of_mem_toDigits (n := n) (by rw [hcr]; simp)
  have hminus : c ≠ '-' := by
    rintro rfl
    cases hdigit
  have hplus : c ≠ '+' := by
    rintro rfl
    cases hdigit
  have hzero : c = '0' → r = [] := by
    rintro rfl
    exact eq_nil_of_toDigits hcr
  rw [hcr] at hread ⊢
  have hpadded : isZeroPadded (c :: r) = false := by
    by_cases hc : c = '0'
    · rw [hc, hzero hc]
      rfl
    · simp [isZeroPadded, hminus, hplus, hc]
  have hmagnitude : magnitude? (c :: r) = some n := by
    by_cases hc : c = '0'
    · rw [hc, hzero hc] at hread ⊢
      exact hread
    · simp [magnitude?, hc, hread]
  have hint : int? (c :: r) = some n := by
    simp [int?, hpadded, hmagnitude, hminus, hplus]
  simp [nat?, hint, hminus]

/-- No number spells no value. -/
theorem isNull_toDigits (n : Nat) : isNull (Nat.toDigits 10 n) = false := by
  have hall : ∀ t ∈ ["null", "Null", "NULL", "~"], nat? t.toList = none := by decide
  refine Bool.eq_false_iff.2 fun hnull => ?_
  obtain ⟨t, hmem, heq⟩ := List.any_eq_true.1 hnull
  have hnone := hall t hmem
  rw [eq_of_beq heq, nat?_toDigits] at hnone
  cases hnone

end Implicit

end Redeploy.Yaml
