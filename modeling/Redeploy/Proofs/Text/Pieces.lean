import Redeploy.Proofs.Text.Cut

set_option autoImplicit false

/-! # The pieces of a text

The pieces between the characters of a class: a text falls apart at every such character
(`splitWhere_append_cons`), and its pieces are the parts that are bounded by them and have none of them
(`mem_splitWhere_iff`). -/

namespace Redeploy.Text

variable {p : Char → Bool}

theorem splitWhere_ne_nil (t : Text) : splitWhere p t ≠ [] := by
  cases t with
  | nil => simp [splitWhere]
  | cons c t =>
    unfold splitWhere
    split
    · simp
    · split <;> simp

/-- A text falls apart at a character of the class. -/
theorem splitWhere_append_cons {a b : Text} {c : Char} (hc : p c = true) :
    splitWhere p (a ++ c :: b) = splitWhere p a ++ splitWhere p b := by
  induction a with
  | nil =>
    obtain ⟨piece, pieces, h⟩ := List.exists_cons_of_ne_nil (splitWhere_ne_nil (p := p) b)
    simp [splitWhere, h, hc]
  | cons d a ih =>
    obtain ⟨piece, pieces, h⟩ := List.exists_cons_of_ne_nil (splitWhere_ne_nil (p := p) a)
    rw [List.cons_append, splitWhere, ih, splitWhere, h]
    by_cases hd : p d = true <;> simp [hd]

theorem splitWhere_of_forall {t : Text} (h : ∀ c ∈ t, p c = false) : splitWhere p t = [t] := by
  induction t with
  | nil => rfl
  | cons c t ih =>
    rw [splitWhere, ih fun d hd => h d (List.mem_cons_of_mem c hd)]
    simp [h c (List.mem_cons_self ..)]

theorem splitOn_ne_nil (c : Char) (t : Text) : splitOn c t ≠ [] := splitWhere_ne_nil t

theorem splitOn_append_cons (c : Char) (a b : Text) :
    splitOn c (a ++ c :: b) = splitOn c a ++ splitOn c b :=
  splitWhere_append_cons (beq_self_eq_true c)

theorem splitOn_of_not_mem {c : Char} {t : Text} (h : c ∉ t) : splitOn c t = [t] :=
  splitWhere_of_forall fun d hd => by
    rw [beq_eq_false_iff_ne]
    exact ne_of_mem_of_not_mem hd h

/-- A piece has no character of the class. -/
theorem forall_of_mem_splitWhere {t w : Text} (h : w ∈ splitWhere p t) : ∀ c ∈ w, p c = false := by
  induction t generalizing w with
  | nil =>
    obtain rfl := List.mem_singleton.1 h
    simp
  | cons d t ih =>
    rw [splitWhere] at h
    split at h
    · obtain rfl := List.mem_singleton.1 h
      simp
    · next piece pieces hpieces =>
      have hpiece : ∀ w ∈ piece :: pieces, ∀ c ∈ w, p c = false := fun w hw => ih (hpieces ▸ hw)
      split at h
      · rcases List.mem_cons.1 h with rfl | h
        · simp
        · exact hpiece w h
      · next hd =>
        rcases List.mem_cons.1 h with rfl | h
        · rintro c hc
          rcases List.mem_cons.1 hc with rfl | hc
          · simpa using hd
          · exact hpiece piece (List.mem_cons_self ..) c hc
        · exact hpiece w (List.mem_cons_of_mem _ h)

/-- A part of a text that is bounded by characters of the class, or by the ends of the text, and that
    has none of them is one of the pieces. -/
theorem mem_splitWhere_append {a w b : Text} (hw : ∀ c ∈ w, p c = false)
    (ha : ∀ c ∈ a.getLast?, p c = true) (hb : ∀ c ∈ b.head?, p c = true) :
    w ∈ splitWhere p (a ++ w ++ b) := by
  have hbehind : w ∈ splitWhere p (w ++ b) := by
    cases b with
    | nil =>
      rw [List.append_nil, splitWhere_of_forall hw]
      exact List.mem_singleton_self w
    | cons c b =>
      rw [splitWhere_append_cons (hb c rfl), splitWhere_of_forall hw]
      exact List.mem_append_left _ (List.mem_singleton_self w)
  rcases List.eq_nil_or_concat a with rfl | ⟨a, c, rfl⟩
  · exact hbehind
  · rw [List.concat_eq_append, List.append_assoc, List.append_assoc, List.singleton_append,
      splitWhere_append_cons (ha c (by simp))]
    exact List.mem_append_right _ hbehind

/-- A piece is bounded by characters of the class, or by the ends of the text. -/
theorem exists_append_of_mem_splitWhere {t w : Text} (h : w ∈ splitWhere p t) : ∃ a b, t = a ++ w ++ b ∧
    (∀ c ∈ a.getLast?, p c = true) ∧ ∀ c ∈ b.head?, p c = true := by
  induction hn : t.length using Nat.strongRecOn generalizing t with
  | ind n ih =>
    subst hn
    cases hany : t.any p with
    | false =>
      have hnone : ∀ c ∈ t, p c = false := fun c hc => by simpa using List.any_eq_false.1 hany c hc
      rw [splitWhere_of_forall hnone, List.mem_singleton] at h
      exact ⟨[], [], by simp [h], by simp, by simp⟩
    | true =>
      -- the text falls apart at any one of the characters, and the piece is on one side of it
      obtain ⟨c, hmem, hc⟩ := List.any_eq_true.1 hany
      obtain ⟨front, rest, rfl⟩ := List.append_of_mem hmem
      rw [splitWhere_append_cons hc, List.mem_append] at h
      rcases h with h | h
      · obtain ⟨a, b, rfl, ha, hb⟩ := ih front.length (by simp) h rfl
        refine ⟨a, b ++ c :: rest, by simp, ha, ?_⟩
        cases b with
        | nil => simpa using hc
        | cons d b => simpa using hb
      · obtain ⟨a, b, rfl, ha, hb⟩ := ih rest.length (by simp; omega) h rfl
        refine ⟨front ++ c :: a, b, by simp, ?_, hb⟩
        rcases List.eq_nil_or_concat a with rfl | ⟨a, d, rfl⟩
        · simpa using hc
        · rw [List.concat_eq_append, List.getLast?_concat] at ha
          rwa [List.concat_eq_append, ← List.cons_append, ← List.append_assoc, List.getLast?_concat]

/-- The pieces of a text are what stands in it between characters of the class and has none of them. -/
theorem mem_splitWhere_iff {t w : Text} : w ∈ splitWhere p t ↔ (∀ c ∈ w, p c = false) ∧
    ∃ a b, t = a ++ w ++ b ∧ (∀ c ∈ a.getLast?, p c = true) ∧ ∀ c ∈ b.head?, p c = true := by
  refine ⟨fun h => ⟨forall_of_mem_splitWhere h, exists_append_of_mem_splitWhere h⟩, ?_⟩
  rintro ⟨hw, a, b, rfl, ha, hb⟩
  exact mem_splitWhere_append hw ha hb

end Redeploy.Text
