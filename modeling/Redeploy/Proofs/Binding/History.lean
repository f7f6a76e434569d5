import Mathlib.Data.List.Induction
import Redeploy.Binding.Scope

set_option autoImplicit false

/-! # What a scope remembers of its history

A scope that has come about by some bindings knows of every name what its last binding was, and no more:
`assignment?_replay` and `importFor?_replay` read both look-ups off `Binding.lastBinding?`. Each is an
induction on the history from its end, where the step says what one more binding does to one name. -/

namespace Redeploy

namespace Scope

variable {s : Scope} {name : String}

theorem find?_dropImports (name other : String) (imports : List Import) :
    (dropImports other imports).reverse.find? (fun i => i.boundName == name) =
      if name = other then none else imports.reverse.find? fun i => i.boundName == name := by
  unfold dropImports
  rw [← List.filter_reverse, List.find?_filter]
  by_cases h : name = other
  · rw [if_pos h, List.find?_eq_none]
    intro i _ hi
    simp only [bne_iff_ne, beq_iff_eq, decide_eq_true_eq] at hi
    exact hi.1 (hi.2.trans h)
  · rw [if_neg h]
    congr 1
    funext i
    by_cases hi : i.boundName = name
    · simp [hi, h]
    · simp [hi]

@[simp] theorem assignment?_empty : empty.assignment? name = none := rfl

@[simp] theorem importFor?_empty : empty.importFor? name = none := rfl

theorem assignment?_recordImport (i : Import) : (s.recordImport i).assignment? name =
    if name = i.boundName then none else s.assignment? name :=
  Table.get?_erase ..

theorem importFor?_recordImport (i : Import) : (s.recordImport i).importFor? name =
    if name = i.boundName then some i else s.importFor? name := by
  rw [importFor?, recordImport, List.reverse_append, List.reverse_singleton, List.singleton_append,
    List.find?_cons]
  by_cases h : name = i.boundName
  · simp [h]
  · have hne : (i.boundName == name) = false := beq_false_of_ne fun heq => h heq.symm
    rw [hne, if_neg h]
    rfl

theorem assignment?_recordAssignment (other : String) (value : Expr) :
    (s.recordAssignment other value).assignment? name =
      if name = other then some value else s.assignment? name :=
  Table.get?_insert ..

theorem importFor?_recordAssignment (other : String) (value : Expr) :
    (s.recordAssignment other value).importFor? name =
      if name = other then none else s.importFor? name :=
  find?_dropImports ..

theorem assignment?_forget (other : String) : (s.forget other).assignment? name =
    if name = other then none else s.assignment? name :=
  Table.get?_erase ..

theorem importFor?_forget (other : String) : (s.forget other).importFor? name =
    if name = other then none else s.importFor? name :=
  find?_dropImports ..

end Scope

namespace Binding

variable {name : String} {history : List Binding}

/-- The value that a binding assigns. -/
def value? : Binding → Option Expr
  | assigned _ value => some value
  | _ => none

/-- The import that a binding is. -/
def import? : Binding → Option Import
  | imported i => some i
  | _ => none

theorem assignment?_record (s : Scope) (b : Binding) : (record s b).assignment? name =
    if name = b.boundName then b.value? else s.assignment? name := by
  cases b with
  | imported i => exact Scope.assignment?_recordImport i
  | assigned other value => exact Scope.assignment?_recordAssignment other value
  | forgotten other => exact Scope.assignment?_forget other

theorem importFor?_record (s : Scope) (b : Binding) : (record s b).importFor? name =
    if name = b.boundName then b.import? else s.importFor? name := by
  cases b with
  | imported i => exact Scope.importFor?_recordImport i
  | assigned other value => exact Scope.importFor?_recordAssignment other value
  | forgotten other => exact Scope.importFor?_forget other

theorem lastBinding?_concat (b : Binding) : lastBinding? name (history ++ [b]) =
    if name = b.boundName then some b else lastBinding? name history := by
  rw [lastBinding?, List.reverse_append, List.reverse_singleton, List.singleton_append,
    List.find?_cons]
  by_cases h : name = b.boundName
  · simp [h]
  · have hne : (b.boundName == name) = false := beq_false_of_ne fun heq => h heq.symm
    rw [hne, if_neg h]
    rfl

theorem lastBinding?_eq_none :
    lastBinding? name history = none ↔ ∀ b ∈ history, b.boundName ≠ name := by
  simp [lastBinding?]

/-- The last binding of a name stands behind all other bindings of the name. -/
theorem lastBinding?_eq_some {b : Binding} : lastBinding? name history = some b ↔
    ∃ before behind, history = before ++ b :: behind ∧ b.boundName = name ∧
      ∀ c ∈ behind, c.boundName ≠ name := by
  rw [lastBinding?, List.find?_eq_some_iff_append]
  constructor
  · rintro ⟨hname, behind, before, heq, hbehind⟩
    refine ⟨before.reverse, behind.reverse, ?_, by simpa using hname, ?_⟩
    · rw [← List.reverse_reverse history, heq]
      simp
    · intro c hc
      simpa using hbehind c (List.mem_reverse.1 hc)
  · rintro ⟨before, behind, rfl, hname, hbehind⟩
    refine ⟨by simpa using hname, behind.reverse, before.reverse, by simp, ?_⟩
    intro c hc
    simpa using hbehind c (List.mem_reverse.1 hc)

theorem replay_concat (b : Binding) : replay (history ++ [b]) = record (replay history) b := by
  simp [replay]

/-- A scope knows the value of a name if the last binding of the name was an assignment. -/
theorem assignment?_replay (name : String) (history : List Binding) :
    (replay history).assignment? name = (lastBinding? name history).bind value? := by
  induction history using List.reverseRecOn with
  | nil => rfl
  | append_singleton history b ih =>
    rw [replay_concat, assignment?_record, lastBinding?_concat, ih]
    split <;> rfl

/-- A scope knows what a name was imported as if the last binding of the name was an import. -/
theorem importFor?_replay (name : String) (history : List Binding) :
    (replay history).importFor? name = (lastBinding? name history).bind import? := by
  induction history using List.reverseRecOn with
  | nil => rfl
  | append_singleton history b ih =>
    rw [replay_concat, importFor?_record, lastBinding?_concat, ih]
    split <;> rfl

end Binding

end Redeploy
