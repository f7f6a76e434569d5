import Redeploy.Text.Basic

set_option autoImplicit false

/-! # Cutting a text

`IsCut` says of an offset that a text can be cut there. The parts of a text between two cuts, the rest
behind one and the end of the line that one is on are then what one expects of them: `slice_append`,
`dropBytes_append` and `lineEnd_spec`. -/

namespace Redeploy.Text

/-- An offset at which a text can be cut: within its bounds and not inside a character. -/
def IsCut (t : Text) (n : Nat) : Prop :=
  ∃ a b : Text, t = a ++ b ∧ a.size = n

theorem isCut_size_append (a b : Text) : IsCut (a ++ b) a.size := ⟨a, b, rfl, rfl⟩

theorem isCut_zero (t : Text) : t.IsCut 0 := ⟨[], t, rfl, rfl⟩

theorem isCut_size (t : Text) : t.IsCut t.size := ⟨t, [], by simp, rfl⟩

theorem IsCut.le_size {t : Text} {n : Nat} (h : t.IsCut n) : n ≤ t.size := by
  obtain ⟨a, b, rfl, rfl⟩ := h
  rw [size_append]
  omega

theorem size_eq_zero {t : Text} : t.size = 0 ↔ t = [] := by
  cases t with
  | nil => simp
  | cons c t =>
    have := c.utf8Size_pos
    simp only [size_cons, reduceCtorEq, iff_false]
    omega

/-- Of two first parts of one text, the smaller one is a first part of the other. -/
theorem exists_append_of_size_le {a b a' b' : Text} (h : a ++ b = a' ++ b')
    (hs : a.size ≤ a'.size) : ∃ m, a' = a ++ m ∧ b = m ++ b' := by
  rcases List.append_eq_append_iff.1 h with ⟨m, ha, hb⟩ | ⟨m, ha, hb⟩
  · exact ⟨m, ha, hb⟩
  · -- `a` is no shorter, so the sizes are equal and there is nothing in between
    have hm : size m = 0 := by
      rw [ha, size_append] at hs
      omega
    rw [size_eq_zero.1 hm, List.append_nil] at ha
    rw [size_eq_zero.1 hm, List.nil_append] at hb
    exact ⟨[], by rw [ha, List.append_nil], hb.symm⟩

/-- Two cuts in order take a text apart into three pieces. -/
theorem IsCut.split {t : Text} {m n : Nat} (hm : t.IsCut m) (hn : t.IsCut n) (h : m ≤ n) :
    ∃ a b c : Text, t = a ++ b ++ c ∧ a.size = m ∧ a.size + b.size = n := by
  obtain ⟨a, r, rfl, rfl⟩ := hm
  obtain ⟨a', c, heq, rfl⟩ := hn
  obtain ⟨b, rfl, rfl⟩ := exists_append_of_size_le heq h
  exact ⟨a, b, c, by rw [List.append_assoc], rfl, by rw [size_append]⟩

/-- Cutting the rest of a text is cutting the text further behind. -/
theorem IsCut.of_append {a b : Text} {n : Nat} (h : IsCut (a ++ b) n) (hn : a.size ≤ n) :
    b.IsCut (n - a.size) := by
  obtain ⟨a', b', heq, rfl⟩ := h
  obtain ⟨m, rfl, rfl⟩ := exists_append_of_size_le heq hn
  exact ⟨m, b', rfl, by rw [size_append]; omega⟩

/-! ## Parts of a text -/

theorem slice_append (a b c : Text) : slice (a ++ b ++ c) a.size (a.size + b.size) = b := by
  have hsub : a.size + b.size - a.size = b.size := by omega
  rw [slice, slice?, if_pos (Nat.le_add_right _ _), List.append_assoc, splitAt?_append,
    Option.bind_some, hsub, splitAt?_append]
  rfl

/-- A part of a text that goes on beyond a piece at its start. -/
theorem exists_slice_eq_append {a b c : Text} {n : Nat} (hn : IsCut (a ++ b ++ c) n)
    (hle : a.size + b.size ≤ n) : ∃ w, slice (a ++ b ++ c) a.size n = b ++ w := by
  obtain ⟨t, rest, heq, rfl⟩ := hn
  obtain ⟨w, rfl, rfl⟩ := exists_append_of_size_le heq (by rwa [size_append])
  refine ⟨w, ?_⟩
  have hslice := slice_append a (b ++ w) rest
  simpa only [size_append, List.append_assoc, Nat.add_assoc] using hslice

/-- A part of a text with something in it has its bounds in order, and is cut out at them. -/
theorem exists_of_slice_ne_nil {t : Text} {m n : Nat} (h : t.slice m n ≠ []) :
    ∃ a c : Text, t = a ++ t.slice m n ++ c ∧ a.size = m ∧ a.size + (t.slice m n).size = n := by
  unfold slice slice? at *
  split at h
  · next hle =>
    cases hm : t.splitAt? m with
    | none => simp [hm] at h
    | some p =>
      obtain ⟨a, r⟩ := p
      cases hn : r.splitAt? (n - m) with
      | none => simp [hm, hn] at h
      | some q =>
        obtain ⟨b, c⟩ := q
        obtain ⟨rfl, ha⟩ := eq_append_of_splitAt? hm
        obtain ⟨rfl, hb⟩ := eq_append_of_splitAt? hn
        refine ⟨a, c, ?_, ha, ?_⟩
        · simp [hle, hn]
        · simp only [hle, hn, if_true, Option.bind_some, Option.map_some, Option.getD_some]
          omega
  · simp at h

theorem lt_of_slice_ne_nil {t : Text} {m n : Nat} (h : t.slice m n ≠ []) : m < n := by
  obtain ⟨a, c, -, ha, hn⟩ := exists_of_slice_ne_nil h
  have hpos : 0 < size (t.slice m n) := by
    rw [Nat.pos_iff_ne_zero, Ne, size_eq_zero]
    exact h
  omega

theorem dropBytes_append (a b : Text) : dropBytes (a ++ b) a.size = b := by
  rw [dropBytes, splitAt?_append]
  rfl

/-! ## Ends of lines -/

theorem firstLine_append {l r : Text} (h : '\n' ∉ l) : firstLine (l ++ '\n' :: r) = l := by
  induction l with
  | nil => rfl
  | cons c l ih =>
    rw [List.mem_cons, not_or] at h
    have hc : (c != '\n') = true := by simpa using fun e => h.1 e.symm
    unfold firstLine at ih ⊢
    rw [List.cons_append, List.takeWhile_cons, if_pos hc, ih h.2]

/-- The first line of a text, and what follows it: nothing, or a line feed and more. -/
theorem exists_firstLine_append (t : Text) : ∃ r : Text, t = firstLine t ++ r ∧ '\n' ∉ firstLine t ∧
    ∀ c, r.head? = some c → c = '\n' := by
  refine ⟨t.dropWhile (· != '\n'), (List.takeWhile_append_dropWhile ..).symm, fun hmem => ?_,
    fun c hc => ?_⟩
  · have := List.all_eq_true.1 (List.all_takeWhile (p := (· != '\n')) (l := t)) _ hmem
    simp at this
  · have := List.head?_dropWhile_not (· != '\n') t
    simpa [hc] using this

/-- The end of the line that a cut is on: behind the next line feed, or the end of the text. -/
theorem lineEnd_append {a l r : Text} (h : '\n' ∉ l) :
    lineEnd (a ++ (l ++ '\n' :: r)) a.size = a.size + l.size + 1 := by
  rw [lineEnd, dropBytes_append, if_pos (by simp), firstLine_append h]

theorem lineEnd_append_of_not_mem {a b : Text} (h : '\n' ∉ b) :
    lineEnd (a ++ b) a.size = size (a ++ b) := by
  rw [lineEnd, dropBytes_append, if_neg (by simpa using h)]

/-- Behind a cut stands the rest of its line, with the line feed unless the text ends there. -/
theorem lineEnd_spec {t : Text} {n : Nat} (h : t.IsCut n) :
    ∃ a l r : Text, t = a ++ l ++ r ∧ a.size = n ∧ t.lineEnd n = a.size + l.size ∧
      ((∃ l', l = l' ++ ['\n'] ∧ '\n' ∉ l') ∨ ('\n' ∉ l ∧ r = [])) := by
  obtain ⟨a, b, rfl, rfl⟩ := h
  by_cases hb : '\n' ∈ b
  · obtain ⟨l, r, rfl, hl⟩ := List.eq_append_cons_of_mem hb
    refine ⟨a, l ++ ['\n'], r, by simp, rfl, ?_, .inl ⟨l, rfl, hl⟩⟩
    rw [lineEnd_append hl, size_append]
    have hsize : size ['\n'] = 1 := rfl
    omega
  · exact ⟨a, b, [], by simp, rfl, by rw [lineEnd_append_of_not_mem hb, size_append], .inr ⟨hb, rfl⟩⟩

theorem le_lineEnd {t : Text} {n : Nat} (h : t.IsCut n) : n ≤ t.lineEnd n := by
  obtain ⟨a, l, r, -, ha, hend, -⟩ := lineEnd_spec h
  omega

theorem isCut_lineEnd {t : Text} {n : Nat} (h : t.IsCut n) : t.IsCut (t.lineEnd n) := by
  obtain ⟨a, l, r, ht, -, hend, -⟩ := lineEnd_spec h
  exact ⟨a ++ l, r, ht, by rw [hend, size_append]⟩

/-- Whether an offset is on the same line as another one, at it or behind it. -/
def OnLineBehind (t : Text) (m n : Nat) : Prop :=
  m ≤ n ∧ n < t.lineEnd m

/-- Offsets on one line have the same end of the line. -/
theorem OnLineBehind.lineEnd_eq {t : Text} {m n : Nat} (h : t.OnLineBehind m n) (hm : t.IsCut m)
    (hn : t.IsCut n) : t.lineEnd n = t.lineEnd m := by
  obtain ⟨hle, hlt⟩ := h
  obtain ⟨a, l, r, rfl, rfl, hend, hl⟩ := lineEnd_spec hm
  rw [hend] at hlt ⊢
  have hn' : (l ++ r).IsCut (n - a.size) := by
    rw [List.append_assoc] at hn
    exact hn.of_append hle
  obtain ⟨x, y, hxy, hx⟩ := hn'
  obtain ⟨z, rfl, rfl⟩ := exists_append_of_size_le hxy.symm (by omega)
  have hsize : n = Text.size (a ++ x) := by
    rw [size_append]
    omega
  rw [size_append]
  rcases hl with ⟨l', hl', hnot⟩ | ⟨hnot, rfl⟩
  · -- the rest of the line is not empty, so the line feed is in it
    rcases List.eq_nil_or_concat z with rfl | ⟨z', c, rfl⟩
    · simp only [List.append_nil] at hlt
      omega
    rw [List.concat_eq_append, ← List.append_assoc] at hl'
    obtain ⟨rfl, hc⟩ := List.append_inj' hl' rfl
    obtain rfl := (List.cons.inj hc).1
    have hz' : '\n' ∉ z' := fun hmem => hnot (List.mem_append_right _ hmem)
    rw [hsize, show a ++ (x ++ z'.concat '\n') ++ r = (a ++ x) ++ (z' ++ '\n' :: r) by simp,
      lineEnd_append hz']
    simp only [List.concat_eq_append, size_append, size_cons, size_nil]
    have : Char.utf8Size '\n' = 1 := rfl
    omega
  · have hz : '\n' ∉ z := fun hmem => hnot (List.mem_append_right _ hmem)
    rw [hsize, show a ++ (x ++ z) ++ [] = (a ++ x) ++ z by simp, lineEnd_append_of_not_mem hz]
    simp only [size_append]
    omega

/-- The lines of a text end in order. -/
theorem lineEnd_mono {t : Text} {m n : Nat} (hm : t.IsCut m) (hn : t.IsCut n) (h : m ≤ n) :
    t.lineEnd m ≤ t.lineEnd n := by
  by_cases hlt : n < t.lineEnd m
  · exact Nat.le_of_eq (OnLineBehind.lineEnd_eq ⟨h, hlt⟩ hm hn).symm
  · have := le_lineEnd hn
    omega

/-- A part of a text that has no line feed but at its end ends on its line or with it. -/
theorem size_le_lineEnd {a w b : Text} (h : '\n' ∉ w.dropLast) :
    size (a ++ w) ≤ lineEnd (a ++ w ++ b) a.size := by
  rcases List.eq_nil_or_concat w with rfl | ⟨w, c, rfl⟩
  · rw [List.append_nil]
    exact le_lineEnd (isCut_size_append a b)
  · rw [List.concat_eq_append, List.dropLast_concat] at h
    rw [List.concat_eq_append]
    by_cases hc : c = '\n'
    · subst hc
      rw [show a ++ (w ++ ['\n']) ++ b = a ++ (w ++ '\n' :: b) by simp, lineEnd_append h]
      simp only [size_append, size_cons, size_nil]
      have : Char.utf8Size '\n' = 1 := rfl
      omega
    · have hw : '\n' ∉ w ++ [c] := by simp [h, Ne.symm hc]
      by_cases hb : '\n' ∈ b
      · obtain ⟨l, r, rfl, hl⟩ := List.eq_append_cons_of_mem hb
        have hl' : '\n' ∉ w ++ [c] ++ l := fun hmem => (List.mem_append.1 hmem).elim hw hl
        rw [show a ++ (w ++ [c]) ++ (l ++ '\n' :: r) = a ++ (w ++ [c] ++ l ++ '\n' :: r) by simp,
          lineEnd_append hl']
        simp only [size_append]
        omega
      · have hb' : '\n' ∉ w ++ [c] ++ b := fun hmem => (List.mem_append.1 hmem).elim hw hb
        rw [List.append_assoc, lineEnd_append_of_not_mem hb']
        simp only [size_append]
        omega

end Redeploy.Text
