import Mathlib.Logic.ExistsUnique
import Redeploy.Migration.Deprecated
import Redeploy.Proofs.Binding.History
import Redeploy.Proofs.Binding.Path

set_option autoImplicit false

/-! # The last binding wins

Of a name, a history comes to one of three things: a value that was assigned, an import, or nothing that
could be told, by what the last binding of the name is (`ComesTo`). The scope after the history knows
exactly this of the name, however often the name was bound before and in whatever ways. Hence what a
dotted path stands for in full, and whether it stands for the deprecated class, is told by the last
binding of its head (`last_binding_decides`). -/

namespace Redeploy

/-- What can be known of a name. -/
inductive Knowledge where
  /-- Its value. -/
  | value (e : Expr)
  /-- What it was imported as. -/
  | imported (i : Import)
  /-- Nothing. -/
  | nothing

namespace Knowledge

/-- The value that is known. -/
def value? : Knowledge → Option Expr
  | value e => some e
  | _ => none

/-- The import that is known. -/
def import? : Knowledge → Option Import
  | imported i => some i
  | _ => none

theorem ext_iff {k k' : Knowledge} : k = k' ↔ k'.value? = k.value? ∧ k'.import? = k.import? := by
  cases k <;> cases k' <;> simp [value?, import?, eq_comm]

/-- What is known of a name whose last binding is given. -/
def ofLast? : Option Binding → Knowledge
  | some (.assigned _ e) => value e
  | some (.imported i) => imported i
  | some (.forgotten _) => nothing
  | none => nothing

theorem value?_ofLast? (b : Option Binding) : (ofLast? b).value? = b.bind Binding.value? := by
  rcases b with _ | ⟨_ | _ | _⟩ <;> rfl

theorem import?_ofLast? (b : Option Binding) : (ofLast? b).import? = b.bind Binding.import? := by
  rcases b with _ | ⟨_ | _ | _⟩ <;> rfl

end Knowledge

namespace Binding

variable {name : String} {history : List Binding}

/-- A binding of a name in a history, with no binding of the name behind it. -/
def IsLast (name : String) (history : List Binding) (b : Binding) : Prop :=
  ∃ before behind, history = before ++ b :: behind ∧ b.boundName = name ∧
    ∀ c ∈ behind, c.boundName ≠ name

/-- What a history comes to for a name. -/
inductive ComesTo (name : String) (history : List Binding) : Knowledge → Prop where
  /-- The last binding of the name assigns a value. -/
  | value {e : Expr} (h : IsLast name history (.assigned name e)) : ComesTo name history (.value e)
  /-- The last binding of the name is an import. -/
  | imported {i : Import} (h : IsLast name history (.imported i)) : ComesTo name history (.imported i)
  /-- The last binding of the name is one whose value cannot be told. -/
  | forgotten (h : IsLast name history (.forgotten name)) : ComesTo name history .nothing
  /-- The name is never bound. -/
  | unbound (h : ∀ b ∈ history, b.boundName ≠ name) : ComesTo name history .nothing

theorem isLast_iff {b : Binding} : IsLast name history b ↔ lastBinding? name history = some b :=
  lastBinding?_eq_some.symm

theorem comesTo_iff {k : Knowledge} :
    ComesTo name history k ↔ k = .ofLast? (lastBinding? name history) := by
  constructor
  · rintro (h | h | h | h)
    · rw [isLast_iff.1 h, Knowledge.ofLast?]
    · rw [isLast_iff.1 h, Knowledge.ofLast?]
    · rw [isLast_iff.1 h, Knowledge.ofLast?]
    · rw [lastBinding?_eq_none.2 h, Knowledge.ofLast?]
  · rintro rfl
    cases hlast : lastBinding? name history with
    | none => exact .unbound (lastBinding?_eq_none.1 hlast)
    | some b =>
      have hb := isLast_iff.2 hlast
      obtain ⟨-, -, -, hname, -⟩ := id hb
      -- the name that is assigned or forgotten is the one in question
      cases b with
      | imported i => exact .imported hb
      | assigned other e => exact .value (hname ▸ hb)
      | forgotten other => exact .forgotten (hname ▸ hb)

/-- A scope knows of a name what its history comes to. -/
theorem comesTo_iff_replay {k : Knowledge} : ComesTo name history k ↔
    (replay history).assignment? name = k.value? ∧ (replay history).importFor? name = k.import? := by
  rw [comesTo_iff, Knowledge.ext_iff, Knowledge.value?_ofLast?, Knowledge.import?_ofLast?,
    assignment?_replay, importFor?_replay]

/-! ## Paths -/

/-- What a path stands for in full after a history: the last binding of its head is an import, whose full
    name is put in the place of the head. -/
inductive Expands (history : List Binding) : String → String → Prop where
  /-- The full path. -/
  | intro {path head tail : String} {i : Import} (hhead : HasHead path head tail)
    (hlast : IsLast head history (.imported i)) : Expands history path (i.qualifiedName ++ tail)

theorem importFor?_replay_eq_some_iff {i : Import} :
    (replay history).importFor? name = some i ↔ IsLast name history (.imported i) := by
  rw [importFor?_replay, isLast_iff, Option.bind_eq_some_iff]
  constructor
  · rintro ⟨b, hb, hi⟩
    cases b <;> simp_all [import?]
  · intro h
    exact ⟨_, h, rfl⟩

theorem qualify?_replay_eq_some_iff {path full : String} :
    (replay history).qualify? path = some full ↔ Expands history path full := by
  constructor
  · intro h
    obtain ⟨head, tail, hhead⟩ := exists_hasHead path
    rw [Scope.qualify?_of_hasHead hhead] at h
    obtain ⟨i, hi, rfl⟩ := Option.map_eq_some_iff.1 h
    exact .intro hhead (importFor?_replay_eq_some_iff.1 hi)
  · rintro ⟨hhead, hlast⟩
    rw [Scope.qualify?_of_hasHead hhead, importFor?_replay_eq_some_iff.2 hlast, Option.map_some]

theorem isClassPath_replay_iff {path : String} :
    Deprecated.isClassPath (replay history) path = true ↔
      (∃ full ∈ Deprecated.classPaths, Expands history path full) ∨
      (¬ ∃ full, Expands history path full) ∧
        (path = Deprecated.className ∨ path ∈ Deprecated.classPaths) := by
  simp only [← qualify?_replay_eq_some_iff]
  unfold Deprecated.isClassPath
  cases (replay history).qualify? path <;> simp

theorem isClass_eq_true_iff {s : Scope} {receiver : Expr} : Deprecated.isClass s receiver = true ↔
    ∃ path, receiver.dottedPath? = some path ∧ Deprecated.isClassPath s path = true := by
  unfold Deprecated.isClass
  cases receiver.dottedPath? <;> simp

/-- A history comes to exactly one thing for a name, by the last binding of the name, and this is what
    the scope knows of it. A path stands for something else in full exactly if the last binding of its
    head is an import. An expression stands for the deprecated class if it is a path that stands for one
    of the paths of the class, or that stands for nothing else in full and is itself the bare name or
    one of the paths of the class. -/
theorem last_binding_decides (name : String) (history : List Binding) :
    (∃! k, ComesTo name history k) ∧
    (∀ k, ComesTo name history k ↔ (replay history).assignment? name = k.value? ∧
      (replay history).importFor? name = k.import?) ∧
    (∀ path full, (replay history).qualify? path = some full ↔ Expands history path full) ∧
    ∀ receiver, Deprecated.isClass (replay history) receiver = true ↔
      ∃ path, receiver.dottedPath? = some path ∧
        ((∃ full ∈ Deprecated.classPaths, Expands history path full) ∨
          (¬ ∃ full, Expands history path full) ∧
            (path = Deprecated.className ∨ path ∈ Deprecated.classPaths)) := by
  refine ⟨?_, fun k => comesTo_iff_replay, fun path full => qualify?_replay_eq_some_iff, ?_⟩
  · exact ⟨_, comesTo_iff.2 rfl, fun k hk => comesTo_iff.1 hk⟩
  · intro receiver
    simp only [isClass_eq_true_iff, isClassPath_replay_iff]

end Binding

end Redeploy
