import Redeploy.Text.Numeral

set_option autoImplicit false

/-! # Numerals that are read back

A number in the digits of a base up to sixteen is read as this number, whichever case its letters are in
and whatever zeros stand in front (`readNat?_toDigits`, `readNat?_zeros`). -/

namespace Redeploy

variable {base n v w : Nat} {f : Char → Char}

theorem readDigits_append (base v : Nat) (s t : Text) :
    readDigits base v (s ++ t) = (readDigits base v s).bind fun w => readDigits base w t := by
  induction s generalizing v with
  | nil => rfl
  | cons c s ih =>
    rw [List.cons_append, readDigits, readDigits]
    split
    · split
      · exact ih _
      · rfl
    · rfl

/-- A way to write digits is one that a digit below the base can be told from. -/
def Spells (base : Nat) (f : Char → Char) : Prop :=
  ∀ d < base, digitValue? (f d.digitChar) = some d

theorem spells_id (h : base ≤ 16) : Spells base id := by
  have hall : ∀ d < 16, digitValue? d.digitChar = some d := by decide
  exact fun d hd => hall d (by omega)

theorem spells_toUpper (h : base ≤ 16) : Spells base Char.toUpper := by
  have hall : ∀ d < 16, digitValue? d.digitChar.toUpper = some d := by decide
  exact fun d hd => hall d (by omega)

theorem readDigits_digit (hf : Spells base f) (hn : n < base) (v : Nat) :
    readDigits base v [f n.digitChar] = some (v * base + n) := by
  rw [readDigits, hf n hn]
  simp [hn, readDigits]

theorem readDigits_toDigits (hbase : 1 < base) (hf : Spells base f) (n : Nat) :
    readDigits base 0 ((Nat.toDigits base n).map f) = some n := by
  induction n using Nat.strongRecOn with
  | ind n ih =>
    by_cases hn : n < base
    · rw [Nat.toDigits_of_lt_base hn, List.map_singleton, readDigits_digit hf hn, Nat.zero_mul,
        Nat.zero_add]
    · have hle : base ≤ n := Nat.le_of_not_lt hn
      have hlt : n / base < n := Nat.div_lt_self (by omega) hbase
      have hmod : n % base < base := Nat.mod_lt n (by omega)
      rw [Nat.toDigits_of_base_le hbase hle, List.map_append, readDigits_append, ih _ hlt,
        Option.bind_some, List.map_singleton, readDigits_digit hf hmod, Nat.mul_comm,
        Nat.div_add_mod]

/-- A number is read back from its digits. -/
theorem readNat?_toDigits (hbase : 1 < base) (hf : Spells base f) (n : Nat) :
    readNat? base ((Nat.toDigits base n).map f) = some n := by
  have hne : ((Nat.toDigits base n).map f).isEmpty = false := by simp
  rw [readNat?, hne]
  exact readDigits_toDigits hbase hf n

theorem readDigits_zeros (hbase : 0 < base) (k : Nat) (t : Text) :
    readDigits base 0 (List.replicate k '0' ++ t) = readDigits base 0 t := by
  induction k with
  | zero => rfl
  | succ k ih =>
    rw [List.replicate_succ, List.cons_append, readDigits]
    simpa [digitValue?, hbase] using ih

/-- Zeros in front of a number make no difference. -/
theorem readNat?_zeros (hbase : 0 < base) {t : Text} (ht : t ≠ []) (k : Nat) :
    readNat? base (List.replicate k '0' ++ t) = readNat? base t := by
  rw [readNat?, readNat?, readDigits_zeros hbase]
  simp [ht]

end Redeploy
