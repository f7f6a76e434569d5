import Mathlib.Data.List.Forall2

set_option autoImplicit false

/-! # Steps that can fail

What is done with each thing of a list, one after the other, either succeeds with all of them
(`mapM_eq_ok_iff`) or fails with the error of the first one that it fails with (`mapM_eq_error_iff`). -/

namespace Redeploy

variable {α β ε : Type}

theorem exists_of_map_eq_ok {g : α → β} {x : Except ε α} {b : β} (h : x.map g = .ok b) :
    ∃ a, x = .ok a ∧ g a = b := by
  cases x with
  | error e => simp [Except.map] at h
  | ok a => exact ⟨a, rfl, by simpa [Except.map] using h⟩

theorem ne_ok_of_isNone_toOption {x : Except ε α} (h : x.toOption.isNone = true) (a : α) :
    x ≠ .ok a := by
  rintro rfl
  simp [Except.toOption] at h

theorem map_eq_error_iff {g : α → β} {x : Except ε α} {e : ε} : x.map g = .error e ↔ x = .error e := by
  cases x <;> simp [Except.map]

theorem mapM_eq_ok_iff {f : α → Except ε β} {xs : List α} {ys : List β} :
    xs.mapM f = .ok ys ↔ List.Forall₂ (fun x y => f x = .ok y) xs ys := by
  induction xs generalizing ys with
  | nil =>
    rw [List.mapM_nil, List.forall₂_nil_left_iff]
    simp [pure, Except.pure, eq_comm]
  | cons x xs ih =>
    rw [List.mapM_cons, List.forall₂_cons_left_iff]
    cases hx : f x with
    | error e => simp [bind, Except.bind]
    | ok y =>
      cases hxs : xs.mapM f with
      | error e => simp [bind, Except.bind, ← ih, hxs]
      | ok ys' => simp [bind, Except.bind, pure, Except.pure, ← ih, hxs, eq_comm]

/-- Of several things that are done one after the other, the first one that fails gives the error. -/
theorem mapM_eq_error_iff {f : α → Except ε β} {xs : List α} {e : ε} :
    xs.mapM f = .error e ↔ ∃ before x behind, xs = before ++ x :: behind ∧
      (∀ b ∈ before, ∃ y, f b = .ok y) ∧ f x = .error e := by
  induction xs with
  | nil => simp [pure, Except.pure]
  | cons x xs ih =>
    rw [List.mapM_cons]
    cases hx : f x with
    | error e' =>
      constructor
      · intro h
        have heq : e' = e := Except.error.inj h
        exact ⟨[], x, xs, rfl, by simp, hx.trans (congrArg _ heq)⟩
      · rintro ⟨before, y, behind, heq, hbefore, hy⟩
        cases before with
        | nil =>
          obtain ⟨rfl, -⟩ := List.cons.inj heq
          obtain rfl : e' = e := Except.error.inj (hx.symm.trans hy)
          rfl
        | cons b before =>
          obtain ⟨rfl, -⟩ := List.cons.inj heq
          obtain ⟨z, hz⟩ := hbefore x (List.mem_cons_self ..)
          simp [hx] at hz
    | ok y =>
      have hrest : (do let y ← Except.ok y; let ys ← xs.mapM f; pure (y :: ys)) = Except.error e ↔
          xs.mapM f = .error e := by
        cases xs.mapM f <;> simp [bind, Except.bind, pure, Except.pure]
      rw [hrest, ih]
      constructor
      · rintro ⟨before, z, behind, rfl, hbefore, hz⟩
        refine ⟨x :: before, z, behind, rfl, ?_, hz⟩
        exact List.forall_mem_cons.2 ⟨⟨y, hx⟩, hbefore⟩
      · rintro ⟨before, z, behind, heq, hbefore, hz⟩
        cases before with
        | nil =>
          obtain ⟨rfl, -⟩ := List.cons.inj heq
          simp [hx] at hz
        | cons b before =>
          obtain ⟨rfl, rfl⟩ := List.cons.inj heq
          exact ⟨before, z, behind, rfl, fun c hc => hbefore c (List.mem_cons_of_mem _ hc), hz⟩

theorem exists_of_forall₂ {R : α → β → Prop} {xs : List α} {ys : List β} (h : List.Forall₂ R xs ys)
    {x : α} (hx : x ∈ xs) : ∃ y ∈ ys, R x y := by
  induction h with
  | nil => simp at hx
  | cons hxy _ ih =>
    rcases List.mem_cons.1 hx with rfl | hx
    · exact ⟨_, List.mem_cons_self .., hxy⟩
    · obtain ⟨y, hy, h⟩ := ih hx
      exact ⟨y, List.mem_cons_of_mem _ hy, h⟩

end Redeploy
