import Redeploy.Proofs.Block.Chain
import Redeploy.Proofs.Call.Blocks

set_option autoImplicit false

/-! # Where an image comes from

A catalog tells the document of a block from what it has stored, or makes it from the keyword arguments
of a call that the assignments of a scope lead to. So an image that it knows of a block at hand is
stored, or it is the string of a literal among these arguments (`exists_of_resolveBound`). -/

namespace Redeploy.Catalog

variable {c : Catalog} {s : Scope} {e v : Expr} {d : Document} {keywords : List (Keyword Expr)}
  {name value image : String}

theorem literalValue?_eq_text (h : literalValue? e = some (.text value)) :
    ∃ raw span, e = .string value raw span := by
  cases e with
  | string value' raw span =>
    obtain rfl := Value.text.inj (Option.some.inj h)
    exact ⟨raw, span, rfl⟩
  | verbatim text atomic span =>
    rw [literalValue?] at h
    split at h
    · simp at h
    split at h
    · simp at h
    split at h
    · simp at h
    · simp [Option.map_eq_some_iff] at h
  | name | member | call => simp [literalValue?] at h

/-- A string in a block that is made is that of a literal among the keyword arguments. -/
theorem exists_of_get?_constructed
    (h : Table.get? name (constructed keywords d) = some (.text value)) :
    Table.get? name d = some (.text value) ∨
      ∃ raw span, ⟨some name, .string value raw span⟩ ∈ keywords := by
  induction keywords generalizing d with
  | nil => exact .inl h
  | cons kw rest ih =>
    obtain ⟨arg, e⟩ := kw
    rw [constructed] at h
    split at h
    · next name' value' hname hvalue =>
      rcases ih h with hget | ⟨raw, span, hmem⟩
      · rw [Table.get?_insert] at hget
        split at hget
        · next heq =>
          obtain rfl : arg = some name := hname.trans (congrArg some heq.symm)
          rw [Option.some.inj hget] at hvalue
          obtain ⟨raw, span, rfl⟩ := literalValue?_eq_text hvalue
          exact .inr ⟨raw, span, List.mem_cons_self ..⟩
        · exact .inl hget
      · exact .inr ⟨raw, span, List.mem_cons_of_mem _ hmem⟩
    · rcases ih h with hget | ⟨raw, span, hmem⟩
      · exact .inl hget
      · exact .inr ⟨raw, span, List.mem_cons_of_mem _ hmem⟩

/-- What is read off an expression is stored, or is made by a call. -/
theorem stored_or_constructed (h : c.direct? s v = some d) : (∃ slug, c.find? slug = some d) ∨
    ∃ func args keywords span, v = .call func args keywords span ∧ d = constructed keywords [] := by
  have hmade : ∀ {func args keywords span name},
      (if isClassName name then some (constructed keywords []) else none) = some d →
        ∃ func' args' keywords' span', Expr.call func args keywords span =
          .call func' args' keywords' span' ∧ d = constructed keywords' [] := by
    intro func args keywords span name h
    split at h
    · exact ⟨func, args, keywords, span, rfl, (Option.some.inj h).symm⟩
    · simp at h
  unfold direct? at h
  split at h
  · split at h
    · split at h
      · obtain ⟨blockName, -, h⟩ := Option.bind_eq_some_iff.1 h
        obtain ⟨path, -, h⟩ := Option.bind_eq_some_iff.1 h
        obtain ⟨slug, -, h⟩ := Option.bind_eq_some_iff.1 h
        exact .inl ⟨slug, h⟩
      · exact .inr (hmade h)
    · exact .inr (hmade h)
    · simp at h
  · simp at h

/-- What a catalog knows of an expression is read off where the assignments lead. -/
theorem exists_leadsTo_of_resolveBound (h : c.resolver.resolveBound e s = some d) :
    ∃ k v, LeadsTo s k e v ∧ c.direct? s v = some d := by
  obtain ⟨r, hsettles⟩ := exists_settles c s e
  have hr : r = some d := (resolveBound_of_settles hsettles).symm.trans h
  cases hsettles with
  | reached hlead => exact ⟨_, _, hlead, hr⟩
  | late | unassigned | cyclic => simp at hr

/-- An image that a catalog knows of a block at hand is stored, or it is the string of a literal in a
    call that makes the block. -/
theorem exists_of_resolveBound (h : c.resolver.resolveBound e s = some d) (himage : d.HasImage image) :
    (∃ slug, c.find? slug = some d) ∨ ∃ k func args keywords span raw imageSpan,
      LeadsTo s k e (.call func args keywords span) ∧
      ⟨some "image", .string image raw imageSpan⟩ ∈ keywords := by
  obtain ⟨k, v, hlead, hdirect⟩ := exists_leadsTo_of_resolveBound h
  rcases stored_or_constructed hdirect with hstored | ⟨func, args, keywords, span, rfl, rfl⟩
  · exact .inl hstored
  · obtain hempty | ⟨raw, imageSpan, hmem⟩ := exists_of_get?_constructed himage.1
    · simp [Table.get?] at hempty
    · exact .inr ⟨k, func, args, keywords, span, raw, imageSpan, hlead, hmem⟩

end Redeploy.Catalog
