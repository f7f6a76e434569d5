import Redeploy.Proofs.Call.Keywords

set_option autoImplicit false

/-! # Carried arguments as a normal form

The keyword arguments that carried arguments are written as have the keys in their order, each of them
once (`map_arg_toKeywords`, `nodup_arg_toKeywords`), so the last value of a key among them is its only
one, and collecting them gives the values back (`get?_collect_toKeywords`). Only the names that are to be
skipped are lost. A list of keyword arguments that has been collected once is therefore in a normal form,
whatever it had of repeated names, former names and names that are no keys (`normal_form`). -/

namespace Redeploy

namespace Expr

variable {arg : String} {keywords : List (Keyword Expr)} {v : Expr}

/-- Where no name is given twice, whatever value a name has is its last one. -/
theorem lookupKeyword_eq_some_iff_mem (h : (keywords.map Keyword.arg).Nodup) :
    lookupKeyword arg keywords = some v ↔ ⟨some arg, v⟩ ∈ keywords := by
  rw [lookupKeyword_eq_some_iff]
  constructor
  · rintro ⟨before, behind, rfl, -⟩
    simp
  · intro hmem
    obtain ⟨before, behind, rfl⟩ := List.append_of_mem hmem
    refine ⟨before, behind, rfl, fun kw hkw heq => ?_⟩
    rw [List.map_append, List.map_cons, List.nodup_append, List.nodup_cons] at h
    have harg : kw.arg ∈ behind.map Keyword.arg := List.mem_map_of_mem hkw
    exact h.2.1.1 (heq ▸ harg)

end Expr

theorem CallKey.keyword_ne_formerJobVariables (key : CallKey) :
    key.keyword ≠ formerJobVariables := by
  cases key <;> decide

namespace Carried

variable {skip : List String} {c : Carried} {key : CallKey} {v : Expr}

/-! ## The keyword arguments -/

theorem mem_keys : key ∈ c.keys ↔ c.contains key = true := by
  simp [keys, CallKey.mem_all]

/-- The keys come in their order. -/
theorem pairwise_keys (c : Carried) : c.keys.Pairwise fun k k' => k.position < k'.position :=
  CallKey.all_pairwise_position.filter _

theorem map_fst_entries (c : Carried) : c.entries.map Prod.fst = c.keys := by
  unfold entries keys
  induction CallKey.all with
  | nil => rfl
  | cons key rest ih =>
    cases hvalue : c.get? key with
    | none => simp [contains, hvalue, ih]
    | some v => simp [contains, hvalue, ih]

theorem map_arg_toKeywords (c : Carried) :
    c.toKeywords.map Keyword.arg = c.keys.map fun key => some key.keyword := by
  rw [← map_fst_entries, toKeywords, List.map_map, List.map_map]
  rfl

theorem nodup_arg_toKeywords (c : Carried) : (c.toKeywords.map Keyword.arg).Nodup := by
  rw [map_arg_toKeywords]
  refine List.Pairwise.map _ ?_ c.pairwise_keys
  intro key key' hlt heq
  obtain rfl := CallKey.keyword_inj.1 (Option.some.inj heq)
  exact absurd hlt (Nat.lt_irrefl _)

/-! ## Collecting them again -/

theorem lookupKeyword_toKeywords (c : Carried) (key : CallKey) :
    Expr.lookupKeyword key.keyword c.toKeywords = c.get? key := by
  ext v
  rw [Expr.lookupKeyword_eq_some_iff_mem c.nodup_arg_toKeywords, mem_toKeywords]

/-- What is written has no former name. -/
theorem considered?_formerJobVariables (c : Carried) (skip : List String) :
    considered? skip c.toKeywords formerJobVariables = none := by
  unfold considered?
  split
  · rfl
  · rw [Expr.lookupKeyword_eq_none_iff]
    intro kw hkw heq
    have hmem : some formerJobVariables ∈ c.keys.map fun key => some key.keyword := by
      rw [← map_arg_toKeywords, ← heq]
      exact List.mem_map_of_mem hkw
    obtain ⟨key, -, hkey⟩ := List.mem_map.1 hmem
    exact key.keyword_ne_formerJobVariables (Option.some.inj hkey)

/-- Collecting what is written gives every value back but those of the names to skip. -/
theorem get?_collect_toKeywords (c : Carried) (skip : List String) (key : CallKey) :
    (collect c.toKeywords skip).get? key = if key.keyword ∈ skip then none else c.get? key := by
  rw [get?_collect, considered?_formerJobVariables, ite_self, Option.none_or]
  by_cases hskip : key.keyword ∈ skip
  · rw [considered?, if_pos (by simpa using hskip), if_pos hskip]
  · rw [considered?_of_not_mem hskip, lookupKeyword_toKeywords, if_neg hskip]

theorem collect_toKeywords_eq_iff :
    collect c.toKeywords skip = c ↔ ∀ key ∈ c.keys, key.keyword ∉ skip := by
  constructor
  · intro heq key hkey hskip
    have hnone := get?_collect_toKeywords c skip key
    rw [heq, if_pos hskip] at hnone
    simp [mem_keys, contains, hnone] at hkey
  · intro h
    ext key : 1
    rw [get?_collect_toKeywords]
    split
    · next hskip =>
      have hkey : key ∉ c.keys := fun hkey => h key hkey hskip
      exact (show c.get? key = none by simpa [mem_keys, contains] using hkey).symm
    · rfl

/-! ## Without a work pool -/

theorem withoutDeployOnly_withoutDeployOnly (c : Carried) :
    c.withoutDeployOnly.withoutDeployOnly = c.withoutDeployOnly := by
  ext key : 1
  simp only [get?_withoutDeployOnly]
  split <;> rfl

theorem withoutDeployOnly_insert_eq_iff : (c.insert key v).withoutDeployOnly =
    c.withoutDeployOnly.insert key v ↔ key.isDeployOnly = false := by
  constructor
  · intro heq
    have hvalue := congrArg (fun c => c.get? key) heq
    simp only [get?_withoutDeployOnly, get?_insert, if_pos] at hvalue
    cases hdeploy : key.isDeployOnly with
    | false => rfl
    | true => simp [hdeploy] at hvalue
  · intro hdeploy
    ext key' : 1
    rw [get?_withoutDeployOnly, get?_insert, get?_insert, get?_withoutDeployOnly]
    by_cases hkey : key' = key
    · rw [if_pos hkey, if_pos hkey, hkey, hdeploy, if_neg Bool.false_ne_true]
    · rw [if_neg hkey, if_neg hkey]

/-! ## The normal form -/

/-- Whatever arguments are carried, by whatever operations they have come about: they are written in the
    order of their keys, each key once and with its value, and collecting them again gives them back
    exactly if none of the keys is to be skipped. So it is with what is collected from any keyword
    arguments. Leaving out what needs a work pool does nothing the second time, and it can be exchanged
    with setting a key exactly if the key needs none. -/
theorem normal_form (c : Carried) :
    c.toKeywords.map Keyword.arg = c.keys.map (fun key => some key.keyword) ∧
    c.keys.Pairwise (fun k k' => k.position < k'.position) ∧ (c.toKeywords.map Keyword.arg).Nodup ∧
    (∀ key v, ⟨some key.keyword, v⟩ ∈ c.toKeywords ↔ c.get? key = some v) ∧
    (∀ skip, collect c.toKeywords skip = c ↔ ∀ key ∈ c.keys, key.keyword ∉ skip) ∧
    (∀ keywords skip skip', collect (collect keywords skip).toKeywords skip' = collect keywords skip ↔
      ∀ key ∈ (collect keywords skip).keys, key.keyword ∉ skip') ∧
    c.withoutDeployOnly.withoutDeployOnly = c.withoutDeployOnly ∧
    ∀ key v, (c.insert key v).withoutDeployOnly = c.withoutDeployOnly.insert key v ↔
      key.isDeployOnly = false :=
  ⟨c.map_arg_toKeywords, c.pairwise_keys, c.nodup_arg_toKeywords, fun _ _ => mem_toKeywords,
    fun _ => collect_toKeywords_eq_iff, fun _ _ _ => collect_toKeywords_eq_iff,
    c.withoutDeployOnly_withoutDeployOnly, fun _ _ => withoutDeployOnly_insert_eq_iff⟩

end Carried

end Redeploy
