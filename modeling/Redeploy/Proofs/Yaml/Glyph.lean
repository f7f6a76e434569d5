import Redeploy.Yaml.Token
import Redeploy.Yaml.Written

set_option autoImplicit false

/-! # Glyphs of a text that is written

What is written is made of characters that may stand in a text and that no break is made uniform of, so
the glyphs that are read are those of the text itself (`glyphs?_of_isPrintable`). -/

namespace Redeploy.Yaml

variable {line column : Nat} {c : Char} {s t u : Text} {g : Glyph} {gs : List Glyph}

/-! ## Places -/

theorem length_glyphsFrom (line column : Nat) (t : Text) : (glyphsFrom line column t).length = t.length := by
  rw [← spelled_glyphsFrom line column t, spelled, List.length_map, ← spelled, spelled_glyphsFrom]

theorem glyphsFrom_cons (hc : isBreak c = false) (line column : Nat) (t : Text) :
    glyphsFrom line column (c :: t) = ⟨c, line, column⟩ :: glyphsFrom line (column + 1) t := by
  rw [glyphsFrom, hc]
  rfl

theorem glyphsFrom_break (hc : isBreak c = true) (line column : Nat) (t : Text) :
    glyphsFrom line column (c :: t) = ⟨c, line, column⟩ :: glyphsFrom (line + 1) 0 t := by
  rw [glyphsFrom, hc]
  rfl

theorem glyphsFrom_append (hs : ∀ c ∈ s, isBreak c = false) (line column : Nat) (t : Text) :
    glyphsFrom line column (s ++ t) =
      glyphsFrom line column s ++ glyphsFrom line (column + s.length) t := by
  induction s generalizing column with
  | nil => rfl
  | cons c s ih =>
    obtain ⟨hc, hs⟩ := List.forall_mem_cons.1 hs
    rw [List.cons_append, glyphsFrom_cons hc, glyphsFrom_cons hc, ih hs, List.cons_append,
      List.length_cons, Nat.add_right_comm, Nat.add_assoc]

/-- A mark stands at the start of a line and is made of equal characters. -/
theorem atMarker_eq_false {mark : Char}
    (h : g.column ≠ 0 ∨ g.char ≠ mark ∨ ∀ d ∈ gs.head?, d.char ≠ mark) :
    atMarker mark (g :: gs) = false := by
  unfold atMarker
  split
  · next hcons =>
    obtain ⟨rfl, rfl⟩ := List.cons.inj hcons
    rcases h with h | h | h
    · simp [h]
    · simp [h]
    · simp [h _ rfl]
  · rfl

theorem atMarker_of_column (mark : Char) (h : g.column ≠ 0) (gs : List Glyph) :
    atMarker mark (g :: gs) = false :=
  atMarker_eq_false (.inl h)

/-- No document starts or ends within a line. -/
theorem atDocumentMarker_of_column (h : g.column ≠ 0) (gs : List Glyph) :
    atDocumentMarker (g :: gs) = false := by
  rw [atDocumentMarker, atMarker_of_column _ h, atMarker_of_column _ h]
  rfl

/-! ## Characters that are written -/

theorem isPrintable_spec (h : Written.isPrintable c = true) :
    isAllowed c = true ∧ c ≠ '\r' ∧ c ≠ '\t' ∧ c ≠ nextLine ∧ c ≠ byteOrderMark := by
  have hne : ∀ d : Char, Written.isPrintable d = false → c ≠ d := by
    rintro d hd rfl
    simp [hd] at h
  refine ⟨?_, hne _ (by decide), hne _ (by decide), hne _ (by decide), hne _ (by decide)⟩
  simp only [Written.isPrintable, isAllowed, Bool.or_eq_true, Bool.and_eq_true, beq_iff_eq,
    decide_eq_true_eq] at h ⊢
  omega

theorem uniformBreaks_eq_self (h : ∀ c ∈ t, c ≠ '\r' ∧ c ≠ nextLine) : uniformBreaks t = t := by
  induction t with
  | nil => rfl
  | cons c t ih =>
    obtain ⟨⟨hreturn, hnext⟩, ht⟩ := List.forall_mem_cons.1 h
    unfold uniformBreaks
    split
    · next heq => exact heq.symm
    · next heq => exact absurd (List.cons.inj heq).1 hreturn
    · next c' t' _ heq =>
      obtain ⟨rfl, rfl⟩ := List.cons.inj heq
      rw [ih ht, if_neg (not_or.2 ⟨hreturn, hnext⟩)]

/-- The glyphs of a text that is written are those of the text. -/
theorem glyphs?_of_isPrintable (h : ∀ c ∈ t, Written.isPrintable c = true) :
    glyphs? t = some (glyphsFrom 0 0 t) := by
  have hall : t.all isAllowed = true :=
    List.all_eq_true.2 fun c hc => (isPrintable_spec (h c hc)).1
  have huniform : uniformBreaks t = t := uniformBreaks_eq_self fun c hc =>
    ⟨(isPrintable_spec (h c hc)).2.1, (isPrintable_spec (h c hc)).2.2.2.1⟩
  rw [glyphs?, if_pos hall, huniform]
  cases t with
  | nil => rfl
  | cons c t =>
    have hc := (isPrintable_spec (h c (List.mem_cons_self ..))).2.2.2.2
    rw [glyphsFrom]
    simp only
    rw [if_neg hc]

end Redeploy.Yaml
