import Mathlib.Data.Fintype.Pigeonhole
import Redeploy.Block.Catalog
import Redeploy.Proofs.Binding.History

set_option autoImplicit false

/-! # Chains of assignments

From a variable one can follow its assignment, and go on as long as this leads to another variable. There
are finitely many assignments, so a chain ends at an expression that is no variable, or at a variable that
is not assigned, or it comes back to a variable that it has met before (`exists_settles`).

A catalog reads a document off the end of a chain, but follows eight assignments at most. So what it
answers is what is read off the end if the end is that near, and nothing otherwise
(`resolveBound_eq_iff_settles`). -/

namespace Redeploy

namespace Table

variable {α : Type} {name : String} {value : α} {t : Table α}

theorem mem_names_of_get?_eq_some (h : get? name t = some value) : name ∈ t.names := by
  induction t with
  | nil => simp [get?] at h
  | cons entry t ih =>
    obtain ⟨key, first⟩ := entry
    rw [get?] at h
    rw [names, List.map_cons, List.mem_cons]
    split at h
    · next later hlater => exact .inr (ih (hlater.trans h))
    · split at h
      · next hkey => exact .inl hkey.symm
      · simp at h

end Table

/-- An expression is a variable. -/
def Expr.IsVariable (e : Expr) : Prop :=
  ∃ id span, e = .name id span

namespace Catalog

variable {c : Catalog} {s s' : Scope} {e v w : Expr} {k m n hops : Nat} {id : String}
  {span span' : Option Span}

/-! ## Following assignments -/

theorem LeadsTo.trans (h : LeadsTo s m e v) (h' : LeadsTo s n v w) : LeadsTo s (m + n) e w := by
  induction h with
  | refl e => rwa [Nat.zero_add]
  | step hvalue _ ih =>
    rw [Nat.succ_add]
    exact .step hvalue (ih h')

/-- There is one chain only, so what is reached later is reached from what is reached before. -/
theorem LeadsTo.cut (h : LeadsTo s m e v) (h' : LeadsTo s (m + n) e w) : LeadsTo s n v w := by
  induction h with
  | refl e => rwa [Nat.zero_add] at h'
  | step hvalue _ ih =>
    rw [Nat.succ_add] at h'
    cases h' with
    | step hvalue' h' =>
      obtain rfl := Option.some.inj (hvalue.symm.trans hvalue')
      exact ih h'

/-- Where a variable stands in the script does not matter to how far it leads. -/
theorem LeadsTo.elsewhere (h : LeadsTo s n (.name id span) v) (span' : Option Span) :
    ∃ v', LeadsTo s n (.name id span') v' := by
  cases h with
  | refl => exact ⟨_, .refl _⟩
  | step hvalue h => exact ⟨_, .step hvalue h⟩

/-- From a variable that leads back to itself there is always a further step. -/
theorem exists_leadsTo_of_cyclic (h : LeadsTo s (n + 1) (.name id span) (.name id span')) (m : Nat) :
    ∃ k v, m ≤ k ∧ LeadsTo s k (.name id span) v := by
  induction m with
  | zero => exact ⟨0, _, Nat.le_refl 0, .refl _⟩
  | succ m ih =>
    obtain ⟨k, v, hk, hlead⟩ := ih
    obtain ⟨v', hlead'⟩ := hlead.elsewhere span'
    exact ⟨n + 1 + k, v', by omega, h.trans hlead'⟩

/-! ## Evaluating -/

theorem evaluate?_of_not_isVariable (hv : ¬ v.IsVariable) (hops : Nat) :
    c.evaluate? s hops v = c.direct? s v := by
  cases v with
  | name id span => exact absurd ⟨id, span, rfl⟩ hv
  | member | call | string | verbatim => simp only [evaluate?]

theorem evaluate?_of_unassigned (h : s.assignment? id = none) (hops : Nat) :
    c.evaluate? s hops (.name id span) = none := by
  cases hops with
  | zero => rfl
  | succ hops => simp only [evaluate?, h, Option.bind_none]

/-- With enough hops, evaluating comes to where the chain leads, and has the rest of the hops left. -/
theorem evaluate?_of_leadsTo (h : LeadsTo s k e v) (hops : Nat) :
    c.evaluate? s (k + hops) e = c.evaluate? s hops v := by
  induction h with
  | refl e => rw [Nat.zero_add]
  | step hvalue _ ih => rw [Nat.succ_add, evaluate?, hvalue, Option.bind_some, ih]

/-- With too few hops, evaluating stops at a variable. -/
theorem evaluate?_eq_none_of_lt (h : LeadsTo s k e v) (hk : hops < k) : c.evaluate? s hops e = none := by
  induction h generalizing hops with
  | refl e => omega
  | step hvalue _ ih =>
    cases hops with
    | zero => rfl
    | succ hops => rw [evaluate?, hvalue, Option.bind_some, ih (by omega)]

theorem direct?_congr (himport : ∀ name, s'.importFor? name = s.importFor? name) :
    c.direct? s' e = c.direct? s e := by
  have hqualify : ∀ path, s'.qualify? path = s.qualify? path := by
    intro path
    simp only [Scope.qualify?, himport]
  unfold direct? loadedSlug?
  simp only [hqualify]

/-- Evaluating looks at the imports, and at the variables that it comes to. -/
theorem evaluate?_congr (himport : ∀ name, s'.importFor? name = s.importFor? name)
    (hassign : ∀ k id span, k < hops → LeadsTo s k e (.name id span) →
      s'.assignment? id = s.assignment? id) :
    c.evaluate? s' hops e = c.evaluate? s hops e := by
  induction hops generalizing e with
  | zero =>
    by_cases he : e.IsVariable
    · obtain ⟨id, span, rfl⟩ := he
      rfl
    · rw [evaluate?_of_not_isVariable he, evaluate?_of_not_isVariable he, direct?_congr himport]
  | succ hops ih =>
    by_cases he : e.IsVariable
    · obtain ⟨id, span, rfl⟩ := he
      rw [evaluate?, evaluate?, hassign 0 id span (Nat.succ_pos hops) (.refl _)]
      cases hvalue : s.assignment? id with
      | none => rfl
      | some value =>
        -- what the value leads to in `k` steps, the variable leads to in one step more
        refine ih fun k id span hk hlead => ?_
        exact hassign (k + 1) id span (Nat.succ_lt_succ hk) (.step hvalue hlead)
    · rw [evaluate?_of_not_isVariable he, evaluate?_of_not_isVariable he, direct?_congr himport]

/-! ## Where a chain leads -/

/-- What following the assignments of a scope without a limit comes to, of which eight steps count. -/
inductive Settles (c : Catalog) (s : Scope) (e : Expr) : Option Document → Prop where
  /-- An expression that is no variable is reached in time, and read as it stands. -/
  | reached {k : Nat} {v : Expr} (hlead : LeadsTo s k e v) (hv : ¬ v.IsVariable) (hk : k ≤ 8) :
    Settles c s e (c.direct? s v)
  /-- An expression that is no variable is reached too late. -/
  | late {k : Nat} {v : Expr} (hlead : LeadsTo s k e v) (hv : ¬ v.IsVariable) (hk : 8 < k) :
    Settles c s e none
  /-- A variable is reached that is not assigned. -/
  | unassigned {k : Nat} {id : String} {span : Option Span} (hlead : LeadsTo s k e (.name id span))
    (hnone : s.assignment? id = none) : Settles c s e none
  /-- A variable is reached that leads back to itself. -/
  | cyclic {k n : Nat} {id : String} {span span' : Option Span} (hlead : LeadsTo s k e (.name id span))
    (hback : LeadsTo s (n + 1) (.name id span) (.name id span')) : Settles c s e none

theorem resolveBound_of_settles {r : Option Document} (h : c.Settles s e r) :
    c.resolver.resolveBound e s = r := by
  show c.evaluate? s 8 e = r
  cases h with
  | @reached k v hlead hv hk =>
    rw [← evaluate?_of_not_isVariable hv (8 - k), ← evaluate?_of_leadsTo hlead, Nat.add_sub_cancel' hk]
  | late hlead hv hk => exact evaluate?_eq_none_of_lt hlead hk
  | @unassigned k id span hlead hnone =>
    by_cases hk : k ≤ 8
    · rw [← Nat.add_sub_cancel' hk, evaluate?_of_leadsTo hlead, evaluate?_of_unassigned hnone]
    · exact evaluate?_eq_none_of_lt hlead (by omega)
  | cyclic hlead hback =>
    -- going round often enough leads farther than the hops
    obtain ⟨m, v, hm, hfar⟩ := exists_leadsTo_of_cyclic hback 9
    exact evaluate?_eq_none_of_lt (hlead.trans hfar) (by omega)

/-- A chain that only meets variables with a value meets one of them twice. -/
theorem exists_cyclic (h : ∀ k v, LeadsTo s k e v → ∃ id span value, v = .name id span ∧
      s.assignment? id = some value) :
    ∃ k n id span span', LeadsTo s k e (.name id span) ∧
      LeadsTo s (n + 1) (.name id span) (.name id span') := by
  have hnext : ∀ k, ∃ v, LeadsTo s k e v := by
    intro k
    induction k with
    | zero => exact ⟨e, .refl e⟩
    | succ k ih =>
      obtain ⟨v, hlead⟩ := ih
      obtain ⟨id, span, value, rfl, hvalue⟩ := h k v hlead
      exact ⟨value, hlead.trans (.step hvalue (.refl value))⟩
  have hmeets : ∀ k, ∃ x : { id // id ∈ s.assignments.names }, ∃ span, LeadsTo s k e (.name x span) := by
    intro k
    obtain ⟨v, hlead⟩ := hnext k
    obtain ⟨id, span, value, rfl, hvalue⟩ := h k v hlead
    exact ⟨⟨id, Table.mem_names_of_get?_eq_some hvalue⟩, span, hlead⟩
  choose x span hlead using hmeets
  -- there are more places in the chain than names that are assigned
  obtain ⟨i, j, hne, heq⟩ := Finite.exists_ne_map_eq_of_infinite x
  have hloop : ∀ i j, i < j → x i = x j → ∃ k n id span span', LeadsTo s k e (.name id span) ∧
      LeadsTo s (n + 1) (.name id span) (.name id span') := by
    intro i j hlt heq
    obtain ⟨n, rfl⟩ := Nat.exists_eq_add_of_lt hlt
    have hj := hlead (i + n + 1)
    rw [← heq, Nat.add_assoc] at hj
    exact ⟨i, n, x i, span i, _, hlead i, (hlead i).cut hj⟩
  rcases Nat.lt_or_gt_of_ne hne with hlt | hgt
  · exact hloop i j hlt heq
  · exact hloop j i hgt heq.symm

theorem exists_settles (c : Catalog) (s : Scope) (e : Expr) : ∃ r, c.Settles s e r := by
  by_cases hends : ∃ k v, LeadsTo s k e v ∧ ¬ v.IsVariable
  · obtain ⟨k, v, hlead, hv⟩ := hends
    by_cases hk : k ≤ 8
    · exact ⟨_, .reached hlead hv hk⟩
    · exact ⟨_, .late hlead hv (by omega)⟩
  by_cases hstops : ∃ k id span, LeadsTo s k e (.name id span) ∧ s.assignment? id = none
  · obtain ⟨k, id, span, hlead, hnone⟩ := hstops
    exact ⟨_, .unassigned hlead hnone⟩
  · obtain ⟨k, n, id, span, span', hlead, hback⟩ := exists_cyclic (s := s) (e := e) (by
      intro k v hlead
      obtain ⟨id, span, rfl⟩ : v.IsVariable := by_contra fun hv => hends ⟨k, v, hlead, hv⟩
      obtain ⟨value, hvalue⟩ := Option.ne_none_iff_exists'.1 fun hnone => hstops ⟨k, id, span, hlead, hnone⟩
      exact ⟨id, span, value, rfl, hvalue⟩)
    exact ⟨_, .cyclic hlead hback⟩

/-- A catalog answers what following assignments comes to, of which eight steps count. Two scopes with the
    same imports that assign the same to the variables of the first eight steps are answered alike. -/
theorem resolveBound_eq_iff_settles (c : Catalog) (s : Scope) (e : Expr) :
    (∀ r, c.resolver.resolveBound e s = r ↔ c.Settles s e r) ∧
    ∀ s' : Scope, (∀ name, s'.importFor? name = s.importFor? name) →
      (∀ k id span, k < 8 → LeadsTo s k e (.name id span) → s'.assignment? id = s.assignment? id) →
      c.resolver.resolveBound e s' = c.resolver.resolveBound e s := by
  refine ⟨fun r => ⟨?_, resolveBound_of_settles⟩, fun s' => evaluate?_congr⟩
  rintro rfl
  obtain ⟨r, hsettles⟩ := exists_settles c s e
  rwa [resolveBound_of_settles hsettles]

/-- A scope in which `a` leads to a new block by nine steps, and `x` and `y` lead to each other. -/
def relay : Scope where
  imports := []
  assignments := [("a", .name "b" none), ("b", .name "c" none), ("c", .name "d" none),
    ("d", .name "e" none), ("e", .name "f" none), ("f", .name "g" none), ("g", .name "h" none),
    ("h", .name "i" none), ("i", .call (.name "Job" none) [] [⟨some "image", .literal "a/b"⟩] none),
    ("x", .name "y" none), ("y", .name "x" none)]

/-- Eight steps are taken and the ninth is not. A variable that is assigned besides changes nothing. -/
theorem resolveBound_relay :
    Catalog.empty.resolver.resolveBound (.name "b" none) relay = some [("image", .text "a/b")] ∧
    Catalog.empty.resolver.resolveBound (.name "a" none) relay = none ∧
    Catalog.empty.resolver.resolveBound (.name "x" none) relay = none ∧
    Catalog.empty.resolver.resolveBound (.name "b" none) (relay.recordAssignment "z" (.literal "s3/z")) =
      some [("image", .text "a/b")] := by
  have hlead : LeadsTo relay 8 (.name "b" none)
      (.call (.name "Job" none) [] [⟨some "image", .literal "a/b"⟩] none) :=
    .step rfl (.step rfl (.step rfl (.step rfl (.step rfl (.step rfl (.step rfl (.step rfl (.refl _))))))))
  have hend : ¬ (Expr.call (.name "Job" none) [] [⟨some "image", .literal "a/b"⟩] none).IsVariable := by
    rintro ⟨id, span, heq⟩
    simp at heq
  have hback : LeadsTo relay (1 + 1) (.name "x" none) (.name "x" none) := .step rfl (.step rfl (.refl _))
  have hb : Catalog.empty.resolver.resolveBound (.name "b" none) relay = some [("image", .text "a/b")] :=
    ((resolveBound_eq_iff_settles _ _ _).1 _).2 (.reached hlead hend (Nat.le_refl 8))
  refine ⟨hb, ((resolveBound_eq_iff_settles _ _ _).1 _).2 (.late (.step rfl hlead) hend (by decide)),
    ((resolveBound_eq_iff_settles _ _ _).1 _).2 (.cyclic (.refl _) hback), ?_⟩
  rw [← hb]
  refine (resolveBound_eq_iff_settles _ _ _).2 _ (fun name => rfl) fun k id span _ hmeets => ?_
  rw [Scope.assignment?_recordAssignment]
  refine if_neg ?_
  -- a variable that is not assigned would end the chain
  rintro rfl
  rw [resolveBound_of_settles (.unassigned hmeets rfl)] at hb
  simp at hb

end Catalog

end Redeploy
