import Mathlib.Data.List.Chain
import Mathlib.Data.List.Pairwise
import Redeploy.Proofs.Text.Splice

set_option autoImplicit false

/-! # Edits in any order

Splicing carries edits out one by one on a text that changes under it; `weave` writes the new text at one
go, from the gaps that the edits leave in the old text and from their own texts. For edits that fit the
text, no two of them with one range, none reaching beyond the start of the next, both come to the same
(`splice_eq_weave`). The edits are taken in the order in which they stand in the text, and there is only
one such order (`inOrder_eq`), so that of the list does not matter. -/

namespace Redeploy

namespace Edit

/-- The order in which edits stand in a text: by where they start, and of two with one start the one that
    ends first. -/
def frontToBack (a b : Edit) : Bool :=
  a.start < b.start || (a.start == b.start && a.stop ≤ b.stop)

/-- Edits in the order in which they stand in a text. -/
def inOrder (edits : List Edit) : List Edit :=
  edits.mergeSort frontToBack

/-- Two edits replace one range. -/
def SameRange (a b : Edit) : Prop :=
  a.start = b.start ∧ a.stop = b.stop

/-- A text from an offset on, with edits in their order behind the offset: each gap as it is, and behind
    it the text of the edit that ends the gap. -/
def weave (t : Text) : (offset : Nat) → List Edit → Text
  | offset, [] => t.slice offset t.size
  | offset, e :: es => t.slice offset e.start ++ e.text ++ weave t e.stop es

/-! ## The order of edits -/

theorem frontToBack_iff (a b : Edit) :
    a.frontToBack b = true ↔ a.start < b.start ∨ (a.start = b.start ∧ a.stop ≤ b.stop) := by
  simp [frontToBack]

theorem perm_inOrder (edits : List Edit) : (inOrder edits).Perm edits :=
  List.mergeSort_perm edits frontToBack

theorem pairwise_inOrder (edits : List Edit) :
    (inOrder edits).Pairwise fun a b => a.frontToBack b = true := by
  apply List.pairwise_mergeSort
  · intro a b c hab hbc
    rw [frontToBack_iff] at *
    omega
  · intro a b
    rw [Bool.or_eq_true, frontToBack_iff, frontToBack_iff]
    omega

theorem Precedes.frontToBack {a b : Edit} (h : a.Precedes b) (ha : a.start ≤ a.stop)
    (hb : b.start ≤ b.stop) : a.frontToBack b = true := by
  rw [frontToBack_iff]
  unfold Precedes at h
  omega

/-- Edits of which no two have one range have one order only. -/
theorem inOrder_eq {edits es : List Edit} (hdistinct : edits.Pairwise fun a b => ¬ a.SameRange b)
    (hperm : es.Perm edits) (hsorted : es.Pairwise fun a b => a.frontToBack b = true) :
    es = inOrder edits := by
  refine List.Perm.eq_of_pairwise ?_ hsorted (pairwise_inOrder edits)
    (hperm.trans (perm_inOrder edits).symm)
  intro a b ha hb hab hba
  -- edits that stand in front of each other have one range, so they are one edit
  by_contra hne
  have hsymm : Std.Symm fun a b : Edit => ¬ a.SameRange b := ⟨fun a b h h' => h ⟨h'.1.symm, h'.2.symm⟩⟩
  refine hdistinct.forall (hperm.mem_iff.1 ha) ((perm_inOrder edits).mem_iff.1 hb) hne ?_
  rw [frontToBack_iff] at hab hba
  unfold SameRange
  omega

/-- Where each edit ends in front of the next one, it ends in front of all that follow. -/
theorem pairwise_of_isChain {es : List Edit} (hle : ∀ e ∈ es, e.start ≤ e.stop)
    (h : es.IsChain Precedes) : es.Pairwise Precedes := by
  induction es with
  | nil => exact .nil
  | cons e es ih =>
    rw [List.isChain_cons] at h
    obtain ⟨hnext, hchain⟩ := h
    have hpairwise := ih (fun e' he' => hle e' (List.mem_cons_of_mem e he')) hchain
    refine List.pairwise_cons.2 ⟨fun e' he' => ?_, hpairwise⟩
    cases es with
    | nil => simp at he'
    | cons d es =>
      have hd := hnext d rfl
      rcases List.mem_cons.1 he' with rfl | he'
      · exact hd
      · have hd' := (List.pairwise_cons.1 hpairwise).1 e' he'
        have hspan := hle d (List.mem_cons_of_mem e List.mem_cons_self)
        unfold Precedes at *
        omega

/-! ## Weaving -/

/-- What is written out edit by edit is what the edits weave. -/
theorem weave_of_substituteFrom (es : List Edit) (before t w : Text)
    (h : substituteFrom before.size es t = some w) : weave (before ++ t) before.size es = w := by
  induction es generalizing before t w with
  | nil =>
    have hslice := Text.slice_append before t []
    rw [List.append_nil, ← Text.size_append] at hslice
    rw [substituteFrom, Option.some.injEq] at h
    rw [weave, hslice, h]
  | cons e es ih =>
    rw [substituteFrom] at h
    split at h
    · next hle =>
      obtain ⟨⟨gap, rest⟩, hgap, h⟩ := Option.bind_eq_some_iff.1 h
      obtain ⟨⟨old, after⟩, hold, h⟩ := Option.bind_eq_some_iff.1 h
      obtain ⟨w', hw', rfl⟩ := Option.map_eq_some_iff.1 h
      obtain ⟨rfl, hgapsize⟩ := Text.eq_append_of_splitAt? hgap
      obtain ⟨rfl, holdsize⟩ := Text.eq_append_of_splitAt? hold
      have hstart : e.start = before.size + gap.size := by omega
      have hstop : e.stop = Text.size (before ++ gap ++ old) := by
        rw [Text.size_append, Text.size_append]
        omega
      have hslice := Text.slice_append before gap (old ++ after)
      rw [← hstart, List.append_assoc] at hslice
      rw [hstop] at hw'
      have hrest := ih (before ++ gap ++ old) after w' hw'
      rw [← hstop, List.append_assoc, List.append_assoc] at hrest
      rw [weave, hslice, hrest]
    · simp at h

end Edit

/-- Edits that fit a text, of which no two have one range and each ends where the next one starts or
    before, can be spliced into it in any order: the new text is woven from the gaps between them and
    from their texts, in the order in which they stand in the old text. -/
theorem splice_eq_weave {t : Text} {edits : List Edit} (hfits : ∀ e ∈ edits, e.Fits t)
    (hdistinct : edits.Pairwise fun a b => ¬ a.SameRange b)
    (hchain : (Edit.inOrder edits).IsChain Edit.Precedes) :
    splice t edits = some (Edit.weave t 0 (Edit.inOrder edits)) ∧
      ∀ es, es.Perm edits → splice t es = splice t edits := by
  have hle : ∀ e ∈ Edit.inOrder edits, e.start ≤ e.stop := fun e he =>
    (hfits e ((Edit.perm_inOrder edits).mem_iff.1 he)).1
  have hapart : edits.Pairwise Edit.Apart :=
    ((Edit.pairwise_of_isChain hle hchain).imp Or.inl).perm (Edit.perm_inOrder edits) Edit.Apart.symm
  have hweave : ∀ es, es.Perm edits → splice t es = some (Edit.weave t 0 (Edit.inOrder edits)) := by
    intro es hperm
    obtain ⟨sorted, w, hsorted, horder, hsubstitute, hsplice⟩ := exists_substitute_of_apart
      (fun e he => hfits e (hperm.mem_iff.1 he)) (hapart.perm hperm.symm Edit.Apart.symm)
    have hsorted' := hsorted.trans hperm
    have hle' : ∀ e ∈ sorted, e.start ≤ e.stop := fun e he => (hfits e (hsorted'.mem_iff.1 he)).1
    obtain rfl : sorted = Edit.inOrder edits := Edit.inOrder_eq hdistinct hsorted' <|
      horder.imp_of_mem fun ha hb h => h.frontToBack (hle' _ ha) (hle' _ hb)
    rw [hsplice, ← Edit.weave_of_substituteFrom _ [] t w hsubstitute]
    rfl
  refine ⟨hweave edits (List.Perm.refl edits), fun es hperm => ?_⟩
  rw [hweave es hperm, hweave edits (List.Perm.refl edits)]

/-- Insertions at both ends of a range that is replaced, from the last one to the first: the new text of the
    range stands between theirs. -/
theorem splice_touching : splice "old()".toList
      [⟨3, 3, "<i>".toList⟩, ⟨0, 3, "new".toList⟩, ⟨0, 0, "a\n".toList⟩] = some "a\nnew<i>()".toList ∧
    splice "old()".toList
      [⟨0, 0, "a\n".toList⟩, ⟨3, 3, "<i>".toList⟩, ⟨0, 3, "new".toList⟩] =
        some "a\nnew<i>()".toList := by
  have hsorted : Edit.inOrder [⟨3, 3, "<i>".toList⟩, ⟨0, 3, "new".toList⟩, ⟨0, 0, "a\n".toList⟩] =
      [⟨0, 0, "a\n".toList⟩, ⟨0, 3, "new".toList⟩, ⟨3, 3, "<i>".toList⟩] :=
    (Edit.inOrder_eq (by simp [Edit.SameRange]) (by decide) (by decide)).symm
  have h0 : Text.IsCut "old()".toList 0 := Text.isCut_zero _
  have h3 : Text.IsCut "old()".toList 3 := Text.isCut_size_append "old".toList "()".toList
  have hfits : ∀ e ∈ [⟨3, 3, "<i>".toList⟩, ⟨0, 3, "new".toList⟩, ⟨0, 0, "a\n".toList⟩],
      Edit.Fits "old()".toList e := by
    simpa [Edit.Fits] using ⟨h3, ⟨h0, h3⟩, h0⟩
  obtain ⟨hsplice, hany⟩ := splice_eq_weave hfits (by simp [Edit.SameRange])
    (by rw [hsorted]; simp [Edit.Precedes])
  rw [hsorted] at hsplice
  refine ⟨hsplice, ?_⟩
  rw [hany _ (by decide), hsplice]
  rfl

end Redeploy
