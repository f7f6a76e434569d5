import Redeploy.Binding.Scope

set_option autoImplicit false

/-! # Heads of dotted paths

What an import binds is the head of a path: all of it in front of the first point. Every path has exactly
one head (`exists_hasHead`), and a scope qualifies the path by putting the full name of what was imported
in the place of the head (`Scope.qualify?_of_hasHead`). -/

namespace Redeploy

/-! ## Cutting at a separator -/

theorem splitFirst?_eq_none {sep : Char} {t : Text} (h : sep ∉ t) : Text.splitFirst? sep t = none := by
  induction t with
  | nil => rfl
  | cons c t ih =>
    rw [List.mem_cons, not_or] at h
    rw [Text.splitFirst?, if_neg fun heq => h.1 heq.symm, ih h.2]
    rfl

theorem splitFirst?_append {sep : Char} {head : Text} (h : sep ∉ head) (rest : Text) :
    Text.splitFirst? sep (head ++ sep :: rest) = some (head, rest) := by
  induction head with
  | nil => simp [Text.splitFirst?]
  | cons c head ih =>
    rw [List.mem_cons, not_or] at h
    rw [List.cons_append, Text.splitFirst?, if_neg fun heq => h.1 heq.symm, ih h.2]
    rfl

/-! ## Heads -/

/-- A path, its head without points, and the rest of it, which is empty or begins with a point. -/
inductive HasHead : String → String → String → Prop where
  /-- A path without points is its own head. -/
  | bare {name : String} (h : '.' ∉ name.toList) : HasHead name name ""
  /-- The head of any other path is in front of the first point. -/
  | dotted {head : String} (h : '.' ∉ head.toList) (rest : String) :
    HasHead (head ++ ("." ++ rest)) head ("." ++ rest)

theorem exists_hasHead (path : String) : ∃ head tail, HasHead path head tail := by
  by_cases hpoint : '.' ∈ path.toList
  · obtain ⟨head, rest, heq, hhead⟩ := List.eq_append_cons_of_mem hpoint
    have hpath : path = String.ofList head ++ ("." ++ String.ofList rest) := by
      rw [← String.toList_inj, heq]
      simp
    exact ⟨String.ofList head, "." ++ String.ofList rest, hpath ▸ .dotted (by simpa using hhead) _⟩
  · exact ⟨path, "", .bare hpoint⟩

theorem splitHead_of_not_mem {name : String} (h : '.' ∉ name.toList) : splitHead name = (name, none) := by
  rw [splitHead, splitFirst?_eq_none h]

theorem splitHead_append {head : String} (h : '.' ∉ head.toList) (rest : String) :
    splitHead (head ++ ("." ++ rest)) = (head, some rest) := by
  have htext : (head ++ ("." ++ rest)).toList = head.toList ++ '.' :: rest.toList := by simp
  rw [splitHead, htext, splitFirst?_append h]
  simp

/-! ## Qualified paths -/

namespace Scope

theorem qualify?_of_hasHead {path head tail : String} (h : HasHead path head tail) (s : Scope) :
    s.qualify? path = (s.importFor? head).map fun i => i.qualifiedName ++ tail := by
  cases h with
  | bare h => simp [qualify?, splitHead_of_not_mem h]
  | dotted h rest => simp [qualify?, splitHead_append h, String.append_assoc]

theorem qualify?_of_not_mem {name : String} (h : '.' ∉ name.toList) (s : Scope) :
    s.qualify? name = (s.importFor? name).map Import.qualifiedName := by
  simpa using qualify?_of_hasHead (.bare h) s

end Scope

end Redeploy
