set_option autoImplicit false

/-! # Tables

Named values in an order. A table read from a file may hold a name twice; the later entry counts.
`insert` and `erase` leave at most one entry of the name they are given. -/

namespace Redeploy

/-- Named values in an order. -/
abbrev Table (α : Type) := List (String × α)

namespace Table

variable {α : Type}

/-- The value of a name; of a repeated name the last entry counts. -/
def get? (name : String) : Table α → Option α
  | [] => none
  | (key, value) :: rest =>
    match get? name rest with
    | some later => some later
    | none => if key = name then some value else none

/-- The table without a name. -/
def erase (name : String) (t : Table α) : Table α :=
  t.filter fun entry => entry.1 != name

/-- The table with a name set to a value. -/
def insert (name : String) (value : α) (t : Table α) : Table α :=
  erase name t ++ [(name, value)]

/-- The table without the entries that a later one of the same name replaces. -/
def distinct : Table α → Table α
  | [] => []
  | (key, value) :: rest =>
    if rest.any fun entry => entry.1 == key then distinct rest else (key, value) :: distinct rest

/-- The names in the table, with repetitions. -/
def names (t : Table α) : List String :=
  t.map (·.1)

/-! ## Looking up -/

theorem get?_append (name : String) (s t : Table α) :
    get? name (s ++ t) = (get? name t).or (get? name s) := by
  induction s with
  | nil => simp [get?]
  | cons entry s ih =>
    obtain ⟨key, value⟩ := entry
    rw [List.cons_append, get?, ih, get?]
    cases get? name t <;> cases get? name s <;> rfl

theorem get?_erase (name other : String) (t : Table α) :
    get? name (erase other t) = if name = other then none else get? name t := by
  induction t with
  | nil => simp [erase, get?]
  | cons entry t ih =>
    obtain ⟨key, value⟩ := entry
    unfold erase at ih ⊢
    rw [List.filter_cons]
    by_cases hk : key = other
    · subst hk
      simp only [bne_self_eq_false, Bool.false_eq_true, if_false, ih, get?]
      by_cases hn : name = key
      · simp [hn]
      · have : key ≠ name := fun h => hn h.symm
        simp only [hn, this, if_false]
        cases get? name t <;> rfl
    · have : (key != other) = true := by simpa using hk
      simp only [this, if_true, get?, ih]
      by_cases hn : name = other
      · subst hn; simp [hk]
      · simp [hn]

/-- A name that was set has its value; all other names keep theirs. -/
theorem get?_insert (name other : String) (value : α) (t : Table α) :
    get? name (insert other value t) = if name = other then some value else get? name t := by
  rw [insert, get?_append, get?_erase]
  by_cases h : name = other
  · simp [get?, h]
  · have : other ≠ name := fun e => h e.symm
    simp [get?, h, this]

end Table

end Redeploy
