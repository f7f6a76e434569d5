import Redeploy.Call.Carried

set_option autoImplicit false

/-! # Which value of a keyword counts

Of a keyword argument that is given several times, the last value counts (`lookupKeyword_eq_some_iff`).
What is carried over of a list of keyword arguments can be told key by key: the last value of the key,
and for the variables of jobs the last value under their former name in front of it (`get?_collect`). The
keys that have values come in their order, each once (`pairwise_entries`, `mem_entries`). -/

namespace Redeploy

namespace Expr

/-- A value is the last one that a list of keyword arguments has for a name. -/
def IsLastValue (keywords : List (Keyword Expr)) (arg : String) (v : Expr) : Prop :=
  ∃ before behind, keywords = before ++ ⟨some arg, v⟩ :: behind ∧ ∀ kw ∈ behind, kw.arg ≠ some arg

/-- A list of keyword arguments has no value for a name. -/
def IsAbsent (keywords : List (Keyword Expr)) (arg : String) : Prop :=
  ∀ kw ∈ keywords, kw.arg ≠ some arg

variable {arg : String} {keywords : List (Keyword Expr)} {v : Expr}

theorem lookupKeyword_cons (arg : String) (kw : Keyword Expr) (rest : List (Keyword Expr)) :
    lookupKeyword arg (kw :: rest) =
      (lookupKeyword arg rest).or (if kw.arg = some arg then some kw.value else none) := by
  rw [lookupKeyword]
  cases lookupKeyword arg rest <;> rfl

theorem lookupKeyword_append (arg : String) (keywords keywords' : List (Keyword Expr)) :
    lookupKeyword arg (keywords ++ keywords') =
      (lookupKeyword arg keywords').or (lookupKeyword arg keywords) := by
  induction keywords with
  | nil => simp [lookupKeyword]
  | cons kw rest ih => rw [List.cons_append, lookupKeyword_cons, lookupKeyword_cons, ih, Option.or_assoc]

theorem lookupKeyword_eq_none_iff : lookupKeyword arg keywords = none ↔ IsAbsent keywords arg := by
  unfold IsAbsent
  induction keywords with
  | nil => simp [lookupKeyword]
  | cons kw rest ih =>
    rw [lookupKeyword_cons, Option.or_eq_none_iff, ih, List.forall_mem_cons, and_comm]
    simp

/-- The value of a keyword argument is the last one that is given for its name. -/
theorem lookupKeyword_eq_some_iff :
    lookupKeyword arg keywords = some v ↔ IsLastValue keywords arg v := by
  constructor
  · intro h
    induction keywords with
    | nil => simp [lookupKeyword] at h
    | cons kw rest ih =>
      rw [lookupKeyword_cons] at h
      cases hrest : lookupKeyword arg rest with
      | some later =>
        rw [hrest, Option.some_or] at h
        obtain ⟨before, behind, rfl, hbehind⟩ := ih (hrest.trans h)
        exact ⟨kw :: before, behind, rfl, hbehind⟩
      | none =>
        rw [hrest, Option.none_or] at h
        obtain ⟨name, value⟩ := kw
        by_cases hname : name = some arg
        · rw [if_pos hname, Option.some.injEq] at h
          exact ⟨[], rest, by rw [List.nil_append, ← hname, ← h], lookupKeyword_eq_none_iff.1 hrest⟩
        · rw [if_neg hname] at h
          simp at h
  · rintro ⟨before, behind, rfl, hbehind⟩
    rw [lookupKeyword_append, lookupKeyword_cons, lookupKeyword_eq_none_iff.2 hbehind, if_pos rfl]
    rfl

end Expr

/-! ## Keys -/

namespace CallKey

theorem ofKeyword?_eq_some_iff {keyword : String} {key : CallKey} :
    ofKeyword? keyword = some key ↔ keyword = key.keyword := by
  constructor
  · intro h
    have := List.find?_some h
    exact (beq_iff_eq.1 this).symm
  · rintro rfl
    exact ofKeyword?_keyword key

theorem keyword_inj {k k' : CallKey} : k.keyword = k'.keyword ↔ k = k' := by
  rw [← ofKeyword?_eq_some_iff, ofKeyword?_keyword, Option.some.injEq]

end CallKey

/-! ## What is carried over -/

namespace Carried

variable {skip : List String} {keywords : List (Keyword Expr)} {c : Carried} {key : CallKey} {v : Expr}

@[ext] theorem ext {c c' : Carried} (h : ∀ key, c.get? key = c'.get? key) : c = c' :=
  congrArg Carried.mk (funext h)

/-- The last value of a name, unless the name is to be skipped. -/
def considered? (skip : List String) (keywords : List (Keyword Expr)) (arg : String) : Option Expr :=
  if skip.contains arg then none else Expr.lookupKeyword arg keywords

theorem considered?_of_not_mem {arg : String} (h : arg ∉ skip) :
    considered? skip keywords arg = Expr.lookupKeyword arg keywords := by
  rw [considered?, if_neg (by simpa using h)]

theorem consideredName?_eq_some_iff {kw : Keyword Expr} {arg : String} :
    consideredName? skip kw = some arg ↔ kw.arg = some arg ∧ skip.contains arg = false := by
  rw [consideredName?, Option.filter_eq_some_iff]
  simp

theorem considered?_cons (kw : Keyword Expr) (rest : List (Keyword Expr)) (arg : String) :
    considered? skip (kw :: rest) arg = (considered? skip rest arg).or
      (if consideredName? skip kw = some arg then some kw.value else none) := by
  unfold considered?
  by_cases hskip : skip.contains arg = true
  · simp only [hskip, if_true, Option.none_or]
    rw [if_neg]
    intro hname
    rw [(consideredName?_eq_some_iff.1 hname).2] at hskip
    simp at hskip
  · rw [if_neg hskip, if_neg hskip, Expr.lookupKeyword_cons]
    simp only [consideredName?_eq_some_iff, Bool.eq_false_iff.2 hskip, and_true]

theorem get?_insert (c : Carried) (k : CallKey) (v : Expr) (key : CallKey) :
    (c.insert k v).get? key = if key = k then some v else c.get? key := rfl

theorem get?_collectOne (c : Carried) (kw : Keyword Expr) (key : CallKey) :
    (collectOne skip c kw).get? key =
      if consideredName? skip kw = some key.keyword then some kw.value else c.get? key := by
  unfold collectOne
  cases hname : consideredName? skip kw with
  | none => simp
  | some name =>
    simp only [Option.some.injEq]
    cases hkey : CallKey.ofKeyword? name with
    | none =>
      -- a name that is no key is not the name of this one
      have hne : name ≠ key.keyword := by
        rintro rfl
        simp [CallKey.ofKeyword?_keyword] at hkey
      rw [if_neg hne]
    | some k =>
      rw [get?_insert]
      obtain rfl := CallKey.ofKeyword?_eq_some_iff.1 hkey
      simp only [CallKey.keyword_inj, eq_comm]

theorem get?_foldl_collectOne (skip : List String) (keywords : List (Keyword Expr)) (c : Carried)
    (key : CallKey) : (keywords.foldl (collectOne skip) c).get? key =
      (considered? skip keywords key.keyword).or (c.get? key) := by
  induction keywords generalizing c with
  | nil => simp [considered?, Expr.lookupKeyword]
  | cons kw rest ih =>
    rw [List.foldl_cons, ih, get?_collectOne, considered?_cons, Option.or_assoc]
    split <;> rfl

theorem formerJobVariables?_eq : formerJobVariables? skip keywords =
    considered? skip keywords Redeploy.formerJobVariables := by
  unfold formerJobVariables?
  induction keywords with
  | nil => simp [considered?, Expr.lookupKeyword]
  | cons kw rest ih =>
    rw [considered?_cons, ← ih, List.reverse_cons, List.find?_append, Option.map_or]
    congr 1
    by_cases hname : consideredName? skip kw = some Redeploy.formerJobVariables <;>
      simp [hname]

/-- What is carried over for a key: its last value, or in front of it the last value under the former
    name if the key has one. -/
theorem get?_collect (keywords : List (Keyword Expr)) (skip : List String) (key : CallKey) :
    (collect keywords skip).get? key =
      (if key = .jobVariables then considered? skip keywords Redeploy.formerJobVariables else none).or
        (considered? skip keywords key.keyword) := by
  unfold collect
  rw [formerJobVariables?_eq]
  have hdirect := get?_foldl_collectOne skip keywords empty key
  rw [show empty.get? key = none from rfl, Option.or_none] at hdirect
  cases considered? skip keywords Redeploy.formerJobVariables with
  | none => simp [hdirect]
  | some value =>
    rw [get?_insert, hdirect]
    split <;> rfl

/-! ## Keys in their order -/

theorem mem_entries : (key, v) ∈ c.entries ↔ c.get? key = some v := by
  simp [entries, CallKey.mem_all]

theorem mem_toKeywords : ⟨some key.keyword, v⟩ ∈ c.toKeywords ↔ c.get? key = some v := by
  rw [toKeywords, List.mem_map, ← mem_entries]
  constructor
  · rintro ⟨⟨key', v'⟩, hmem, heq⟩
    obtain ⟨hkey, rfl⟩ := Keyword.mk.inj heq
    obtain rfl := CallKey.keyword_inj.1 (Option.some.inj hkey)
    exact hmem
  · exact fun hmem => ⟨_, hmem, rfl⟩

theorem pairwise_entries (c : Carried) :
    c.entries.Pairwise fun e e' => e.1.position < e'.1.position := by
  rw [entries, List.pairwise_filterMap]
  refine CallKey.all_pairwise_position.imp ?_
  intro k k' hlt e he e' he'
  obtain ⟨v, -, rfl⟩ := Option.map_eq_some_iff.1 he
  obtain ⟨v', -, rfl⟩ := Option.map_eq_some_iff.1 he'
  exact hlt

theorem get?_withoutDeployOnly (c : Carried) (key : CallKey) :
    c.withoutDeployOnly.get? key = if key.isDeployOnly then none else c.get? key := rfl

end Carried

end Redeploy
