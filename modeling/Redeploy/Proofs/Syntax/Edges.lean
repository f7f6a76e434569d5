import Redeploy.Proofs.Syntax.Reads

set_option autoImplicit false

/-! # First and last tokens

How what a rule reads can begin and end. `Rule.edge` tells whether a rule can read nothing, whether it
can begin with a test of one class, and whether it can end with a test of another. For the phrases of a
grammar the edges are given by a table, and what is read keeps to every table that the rules keep to
(`Reads.admits`). -/

namespace Redeploy.Syntax

/-- How what a rule reads can begin and end. -/
structure Edge where
  /-- Whether it can be nothing. -/
  nullable : Bool
  /-- Whether its first token can pass a test of a class. -/
  starts : Bool
  /-- Whether its last token can pass a test of another class. -/
  ends : Bool
  deriving DecidableEq

namespace Edge

/-- Nothing. -/
def nothing : Edge := ⟨true, false, false⟩

/-- Something that neither begins nor ends with a test of the classes. -/
def unmarked : Edge := ⟨false, false, false⟩

/-- One thing and then another. -/
def seq (a b : Edge) : Edge :=
  ⟨a.nullable && b.nullable, a.starts || (a.nullable && b.starts), b.ends || (b.nullable && a.ends)⟩

/-- One thing or another. -/
def alt (a b : Edge) : Edge :=
  ⟨a.nullable || b.nullable, a.starts || b.starts, a.ends || b.ends⟩

/-- Whether everything that one edge allows is allowed by another. -/
def le (a b : Edge) : Bool :=
  (!a.nullable || b.nullable) && (!a.starts || b.starts) && (!a.ends || b.ends)

end Edge

section

variable {N : Type} (A B : Terminal → Bool) (table : N → Edge)

/-- How what a rule reads can begin with a test of `B` and end with one of `A`. -/
def Rule.edge : Rule N → Edge
  | .empty | .become _ | .ahead _ | .notAhead _ => .nothing
  | .token t => ⟨false, B t, A t⟩
  | .seq a b => a.edge.seq b.edge
  | .alt a b => a.edge.alt b.edge
  | .many a => { a.edge with nullable := true }
  | .ref n => table n
  | .node _ a | .wrap _ _ a | .role _ a | .only _ a => a.edge

/-- Whether the rule of a phrase keeps to the table. -/
def Rule.fits (g : N → Rule N) (n : N) : Bool :=
  ((g n).edge A B table).le (table n)

end

/-- What an edge says of what has been read. -/
structure Edge.Admits (A B : Terminal → Bool) (e : Edge) (us : List Use) : Prop where
  nullable : us = [] → e.nullable = true
  starts : ∀ u ∈ us.head?, B u.terminal = true → e.starts = true
  ends : ∀ u ∈ us.getLast?, A u.terminal = true → e.ends = true

namespace Edge

variable {A B : Terminal → Bool} {e e' : Edge} {us vs : List Use}

theorem admits_nothing : nothing.Admits A B [] :=
  ⟨fun _ => rfl, by simp, by simp⟩

theorem Admits.mono (h : e.Admits A B us) (hnullable : e.nullable = true → e'.nullable = true)
    (hstarts : e.starts = true → e'.starts = true) (hends : e.ends = true → e'.ends = true) :
    e'.Admits A B us :=
  ⟨fun hnil => hnullable (h.nullable hnil), fun u hu hB => hstarts (h.starts u hu hB),
    fun u hu hA => hends (h.ends u hu hA)⟩

theorem Admits.of_le (h : e.Admits A B us) (hle : e.le e' = true) : e'.Admits A B us := by
  simp only [le, Bool.and_eq_true, Bool.or_eq_true, Bool.not_eq_true'] at hle
  obtain ⟨⟨h1, h2⟩, h3⟩ := hle
  apply h.mono
  · intro hn
    simpa [hn] using h1
  · intro hs
    simpa [hs] using h2
  · intro he
    simpa [he] using h3

theorem Admits.alt_left (h : e.Admits A B us) : (e.alt e').Admits A B us := by
  apply h.mono <;> simp +contextual [alt]

theorem Admits.alt_right (h : e'.Admits A B us) : (e.alt e').Admits A B us := by
  apply h.mono <;> simp +contextual [alt]

theorem Admits.append (h : e.Admits A B us) (h' : e'.Admits A B vs) :
    (e.seq e').Admits A B (us ++ vs) := by
  refine ⟨fun hnil => ?_, fun u hu hB => ?_, fun u hu hA => ?_⟩
  · obtain ⟨rfl, rfl⟩ := List.append_eq_nil_iff.1 hnil
    simp [seq, h.nullable rfl, h'.nullable rfl]
  · cases us with
    | nil => simp [seq, h.nullable rfl, h'.starts u hu hB]
    | cons v us => simp [seq, h.starts u hu hB]
  · rw [List.getLast?_append] at hu
    cases hlast : vs.getLast? with
    | none =>
      rw [hlast, Option.none_or] at hu
      rw [List.getLast?_eq_none_iff] at hlast
      simp [seq, h'.nullable hlast, h.ends u hu hA]
    | some v =>
      rw [hlast, Option.some_or] at hu
      rw [← hlast] at hu
      simp [seq, h'.ends u hu hA]

end Edge

variable {N : Type} {A B : Terminal → Bool} {table : N → Edge} {g : N → Rule N}

/-- What a rule reads begins and ends as its edge says. -/
theorem Reads.admits (hg : ∀ n, Rule.fits A B table g n = true) {rule : Rule N} {us : List Use}
    {f f' : Frame} (h : Reads g rule us f f') : (rule.edge A B table).Admits A B us := by
  induction h with
  | empty | become | ahead | notAhead => exact Edge.admits_nothing
  | manyNil => exact ⟨fun _ => rfl, by simp, by simp⟩
  | token => exact ⟨by simp, by simp [Rule.edge], by simp [Rule.edge]⟩
  | seq _ _ iha ihb => exact iha.append ihb
  | altLeft _ ih => exact ih.alt_left
  | altRight _ ih => exact ih.alt_right
  | manyCons _ _ _ iha ihb =>
    apply (iha.append ihb).mono
    · intro _
      rfl
    · simp only [Edge.seq, Rule.edge, Bool.or_eq_true, Bool.and_eq_true]
      rintro (hs | ⟨-, hs⟩) <;> exact hs
    · simp only [Edge.seq, Rule.edge, Bool.or_eq_true, Bool.true_and]
      rintro (he | he) <;> exact he
  | @ref n _ _ _ _ ih => exact ih.of_le (hg n)
  | node _ ih | wrap _ ih | role _ ih | only _ _ ih => exact ih

/-- No rule whose edge says so ends with a token that passes a test of the first class. -/
theorem Reads.ends_eq_false (A : Terminal → Bool) (table : N → Edge)
    (hg : ∀ n, Rule.fits A (fun _ => false) table g n = true) {rule : Rule N} {us : List Use}
    {f f' : Frame} (h : Reads g rule us f f')
    (hends : (rule.edge A (fun _ => false) table).ends = false) :
    ∀ u ∈ us.getLast?, A u.terminal = false := by
  intro u hu
  cases hA : A u.terminal with
  | false => rfl
  | true =>
    rw [(h.admits hg).ends u hu hA] at hends
    simp at hends

/-- No rule whose edge says so begins with a token that passes a test of the second class. -/
theorem Reads.starts_eq_false (B : Terminal → Bool) (table : N → Edge)
    (hg : ∀ n, Rule.fits (fun _ => false) B table g n = true) {rule : Rule N} {us : List Use}
    {f f' : Frame} (h : Reads g rule us f f')
    (hstarts : (rule.edge (fun _ => false) B table).starts = false) :
    ∀ u ∈ us.head?, B u.terminal = false := by
  intro u hu
  cases hB : B u.terminal with
  | false => rfl
  | true =>
    rw [(h.admits hg).starts u hu hB] at hstarts
    simp at hstarts

end Redeploy.Syntax
