import Redeploy.Proofs.Text.Cut
import Redeploy.Text.Edit

set_option autoImplicit false

/-! # Splicing is substituting

Edits that are carried out from the back to the front do not disturb each other as long as their
ranges do not meet. `exists_substitute_of_apart` says so: for edits that fit the text and are pairwise
apart, splicing is the substitution of all of them at once, in the order in which they stand in the
text. The step of the induction is that everything in front of an edit is still as it was when the
edit is carried out (`carryOutAll?_reverse`). -/

namespace Redeploy

namespace Edit

/-- The range of an edit is a range of the text: not inverted, within its bounds, and cutting no
    character. -/
def Fits (t : Text) (e : Edit) : Prop :=
  e.start ≤ e.stop ∧ t.IsCut e.start ∧ t.IsCut e.stop

/-- The range of one edit ends where that of another starts, or before. -/
def Precedes (a b : Edit) : Prop := a.stop ≤ b.start

/-- The ranges of two edits have no byte in common, and if one of them is empty it is not inside the
    other. -/
def Apart (a b : Edit) : Prop := a.Precedes b ∨ b.Precedes a

theorem Apart.symm {a b : Edit} (h : a.Apart b) : b.Apart a := Or.symm h

theorem backToFront_iff (a b : Edit) :
    a.backToFront b = true ↔ b.start < a.start ∨ (a.start = b.start ∧ b.stop ≤ a.stop) := by
  simp [backToFront]

theorem backToFront_trans (a b c : Edit) (hab : a.backToFront b = true)
    (hbc : b.backToFront c = true) : a.backToFront c = true := by
  rw [backToFront_iff] at *
  omega

theorem backToFront_total (a b : Edit) : (a.backToFront b || b.backToFront a) = true := by
  rw [Bool.or_eq_true, backToFront_iff, backToFront_iff]
  omega

/-- Of two edits that are apart, the one that is carried out later stands in front. -/
theorem Apart.precedes_of_backToFront {a b : Edit} (h : a.Apart b) (ha : a.start ≤ a.stop)
    (hback : a.backToFront b = true) : b.Precedes a := by
  rw [backToFront_iff] at hback
  unfold Apart Precedes at *
  omega

/-! ## Carrying out edits one by one -/

theorem carryOut?_append {e : Edit} {a old b : Text} (hstart : e.start = a.size)
    (hstop : e.stop = a.size + old.size) :
    e.carryOut? (a ++ old ++ b) = some (a ++ e.text ++ b) := by
  have hsub : e.stop - e.start = old.size := by omega
  rw [carryOut?, if_pos (by omega), List.append_assoc, hstart, Text.splitAt?_append]
  simp only [← hstart, hsub, Text.splitAt?_append]

theorem carryOutAll?_append (xs ys : List Edit) (t : Text) :
    carryOutAll? (xs ++ ys) t = (carryOutAll? xs t).bind (carryOutAll? ys) := by
  induction xs generalizing t with
  | nil => rfl
  | cons e xs ih =>
    simp only [List.cons_append, carryOutAll?]
    cases e.carryOut? t with
    | none => rfl
    | some t' => exact ih t'

/-- Edits behind a first part of a text, carried out from the last to the first one, leave that part
    alone and do to the rest what writing it from the front does. -/
theorem carryOutAll?_reverse (es : List Edit) (before t w : Text)
    (h : substituteFrom before.size es t = some w) :
    carryOutAll? es.reverse (before ++ t) = some (before ++ w) := by
  induction es generalizing before t w with
  | nil =>
    rw [substituteFrom, Option.some.injEq] at h
    rw [h]
    rfl
  | cons e es ih =>
    rw [substituteFrom] at h
    split at h
    · next hle =>
      obtain ⟨⟨gap, rest⟩, hgap, h⟩ := Option.bind_eq_some_iff.1 h
      obtain ⟨⟨old, after⟩, hold, h⟩ := Option.bind_eq_some_iff.1 h
      obtain ⟨w', hw', rfl⟩ := Option.map_eq_some_iff.1 h
      obtain ⟨rfl, hgapsize⟩ := Text.eq_append_of_splitAt? hgap
      obtain ⟨rfl, holdsize⟩ := Text.eq_append_of_splitAt? hold
      have hstart : e.start = Text.size (before ++ gap) := by
        rw [Text.size_append]
        omega
      have hstop : e.stop = Text.size (before ++ gap ++ old) := by
        rw [Text.size_append]
        omega
      -- what comes behind the edit is done first, with everything up to the edit still in place
      have hrest : carryOutAll? es.reverse (before ++ (gap ++ (old ++ after)))
          = some (before ++ gap ++ old ++ w') := by
        rw [hstop] at hw'
        rw [← ih (before ++ gap ++ old) after w' hw']
        simp only [List.append_assoc]
      rw [List.reverse_cons, carryOutAll?_append, hrest, Option.bind_some, carryOutAll?,
        carryOut?_append hstart (by rw [hstop, Text.size_append])]
      simp only [Option.bind_some, carryOutAll?, List.append_assoc]
    · simp at h

/-! ## Substituting -/

/-- Edits in order, behind a first part of a text that they fit, can be written out. -/
theorem exists_substituteFrom (es : List Edit) (before t : Text)
    (hfits : ∀ e ∈ es, e.Fits (before ++ t)) (hbehind : ∀ e ∈ es, before.size ≤ e.start)
    (horder : es.Pairwise Precedes) : ∃ w, substituteFrom before.size es t = some w := by
  induction es generalizing before t with
  | nil => exact ⟨t, rfl⟩
  | cons e es ih =>
    obtain ⟨hle, hstart, hstop⟩ := hfits e (List.mem_cons_self ..)
    have hbefore := hbehind e (List.mem_cons_self ..)
    rw [List.pairwise_cons] at horder
    obtain ⟨gap, old, after, rfl, hgap, hold⟩ :=
      Text.IsCut.split (hstart.of_append hbefore) (hstop.of_append (by omega)) (by omega)
    have hsize : Text.size (before ++ gap ++ old) = e.stop := by
      rw [Text.size_append, Text.size_append]
      omega
    obtain ⟨w, hw⟩ := ih (before ++ gap ++ old) after
      (fun e' he' => by
        have := hfits e' (List.mem_cons_of_mem _ he')
        rwa [show before ++ gap ++ old ++ after = before ++ (gap ++ old ++ after) by
          simp only [List.append_assoc]])
      (fun e' he' => by rw [hsize]; exact horder.1 e' he') horder.2
    have hcut : Text.splitAt? (gap ++ old ++ after) (e.start - Text.size before)
        = some (gap, old ++ after) := by
      rw [← hgap, List.append_assoc, Text.splitAt?_append]
    have hcut' : Text.splitAt? (old ++ after) (e.stop - e.start) = some (old, after) := by
      rw [show e.stop - e.start = old.size by omega, Text.splitAt?_append]
    refine ⟨gap ++ e.text ++ w, ?_⟩
    rw [substituteFrom, if_pos ⟨hbefore, hle⟩, hcut]
    simp only [Option.bind_some, hcut']
    rw [← hsize, hw]
    rfl

end Edit

/-! ## Splicing -/

/-- Edits that fit a text and are pairwise apart can be spliced into it. The result is the text with
    all of them carried out at once, in the order in which they stand in it. -/
theorem exists_substitute_of_apart {t : Text} {edits : List Edit} (hfits : ∀ e ∈ edits, e.Fits t)
    (hapart : edits.Pairwise Edit.Apart) :
    ∃ es w, es.Perm edits ∧ es.Pairwise Edit.Precedes ∧ substitute t es = some w ∧
      splice t edits = some w := by
  let sorted := edits.mergeSort Edit.backToFront
  have hperm : sorted.Perm edits := List.mergeSort_perm edits Edit.backToFront
  have hfits' : ∀ e ∈ sorted, e.Fits t := fun e he => hfits e (hperm.mem_iff.1 he)
  have hsorted : sorted.Pairwise fun a b => a.backToFront b = true :=
    List.pairwise_mergeSort Edit.backToFront_trans Edit.backToFront_total edits
  have hapart' : sorted.Pairwise Edit.Apart :=
    hapart.perm hperm.symm fun h => Edit.Apart.symm h
  have horder : sorted.reverse.Pairwise Edit.Precedes := by
    rw [List.pairwise_reverse]
    exact (hsorted.and hapart').imp_of_mem fun ha _ h =>
      h.2.precedes_of_backToFront (hfits' _ ha).1 h.1
  obtain ⟨w, hw⟩ := Edit.exists_substituteFrom sorted.reverse [] t
    (fun e he => hfits' e (List.mem_reverse.1 he)) (fun e _ => Nat.zero_le _) horder
  refine ⟨sorted.reverse, w, (List.reverse_perm sorted).trans hperm, horder, hw, ?_⟩
  have hsplice := Edit.carryOutAll?_reverse sorted.reverse [] t w hw
  rwa [List.reverse_reverse] at hsplice

theorem splice_of_pairwise {edits : List Edit} (h : edits.Pairwise fun a b => a.backToFront b = true)
    (t : Text) : splice t edits = Edit.carryOutAll? edits t := by
  rw [splice, List.mergeSort_of_pairwise h]

end Redeploy
