import Redeploy.Block.Catalog
import Redeploy.Proofs.Migration.Outermost

set_option autoImplicit false

/-! # What a walk finds is a matter of the tree

Settings decide what a call is classified as, and whether a walk ends early. They do not decide which
calls it finds, nor what it takes the names of the script to stand for: both are what the walk of the
tree alone gives (`places_eq`, `find_eq_ok_iff`).

A walk may count how many functions, classes and lambdas it is in, instead of being told that it is in
one. `countedVisit` does so, and it is the same walk (`visit_eq_outcome`). It leaves each definition with
the count that it has entered it with, also if a call in it cannot be classified, and within a definition
nothing is bound (`framed_countedVisit`). So a definition of the script itself changes the scope by its
name only, and a lambda does not change it at all (`independent_of_setting`). -/

namespace Redeploy

/-- What a call is found by: its text and its place. -/
def MigratedCall.place (call : MigratedCall) : String × Span :=
  (call.writtenText, call.classified.span)

namespace Migration

open Syntax (Tree Kind)

variable (setting : Setting) (script : Script)

/-- The calls of a migration are found where the outermost calls of the script are. -/
theorem places_eq {f : Found} (hfind : find setting script = .ok f) :
    f.calls.map MigratedCall.place =
      (Script.outermost script).map fun a => (a.node.text script.source, a.node.span) := by
  have hall := forall₂_outermost setting script hfind
  generalize Script.outermost script = met at hall ⊢
  generalize f.calls = calls at hall ⊢
  induction hall with
  | nil => rfl
  | cons hcall _ ih =>
    obtain ⟨hclassify, htext⟩ := hcall
    rw [List.map_cons, List.map_cons, ih, MigratedCall.place, htext, (exists_of_classify hclassify).1]

/-! ## A walk that counts -/

/-- How far a walk has come that counts the definitions it is in. -/
structure Progress where
  /-- What has been found so far. -/
  found : Found
  /-- How many functions, classes and lambdas the walk is in. -/
  nesting : Nat

namespace Progress

/-- The scope changed by a function, unless the walk is in a definition. -/
def bind (p : Progress) (change : Scope → Scope) : Progress :=
  if p.nesting = 0 then { p with found := p.found.withScope change } else p

/-- In one more definition. -/
def enter (p : Progress) : Progress := { p with nesting := p.nesting + 1 }

/-- Out of a definition again. -/
def leave (p : Progress) : Progress := { p with nesting := p.nesting - 1 }

variable {p : Progress} {change : Scope → Scope}

@[simp] theorem nesting_bind : (p.bind change).nesting = p.nesting := by
  unfold bind
  split <;> rfl

theorem bind_of_outer (h : p.nesting = 0) :
    p.bind change = { p with found := p.found.withScope change } := if_pos h

theorem bind_of_inner (h : p.nesting ≠ 0) : p.bind change = p := if_neg h

@[simp] theorem nesting_enter : p.enter.nesting = p.nesting + 1 := rfl

@[simp] theorem found_enter : p.enter.found = p.found := rfl

@[simp] theorem nesting_leave : p.leave.nesting = p.nesting - 1 := rfl

@[simp] theorem found_leave : p.leave.found = p.found := rfl

end Progress

/-- What comes of a walk: the error that ends it, if one does, and how far it has come. -/
structure Halt where
  /-- The error of the call that cannot be classified. -/
  error? : Option MigrateError
  /-- How far the walk has come. -/
  progress : Progress

namespace Halt

/-- A walk has not come further if a step of it fails. -/
def ofStep (p : Progress) : Except MigrateError Found → Halt
  | .ok f => ⟨none, { p with found := f }⟩
  | .error e => ⟨some e, p⟩

/-- What has been found, if no error has ended the walk. -/
def outcome (h : Halt) : Except MigrateError Found :=
  match h.error? with
  | some e => .error e
  | none => .ok h.progress.found

/-- Go on after a walk that no error has ended. -/
def andThen (h : Halt) (next : Progress → Halt) : Halt :=
  match h.error? with
  | some _ => h
  | none => next h.progress

end Halt

mutual

/-- Walk over a node, and count the definitions on the way down to each node. -/
def countedVisit : Tree → Progress → Halt
  | .node kind role span children, p =>
    let t : Tree := .node kind role span children
    if isDeprecatedCall script.source p.found.scope t then
      .ofStep p (recordCall setting script t p.found)
    else if opensScope kind then
      let below := countedVisitAll children (p.bind (forgetDefinition script.source t)).enter
      { below with progress := below.progress.leave }
    else if isImport kind && p.nesting == 0 then
      ⟨none, p.bind (bindImports script.source t)⟩
    else
      (countedVisitAll children (p.bind (bindBefore script.source t))).andThen fun p' =>
        ⟨none, p'.bind (bindAfter script.source t)⟩

/-- Walk over several nodes. -/
def countedVisitAll : List Tree → Progress → Halt
  | [], p => ⟨none, p⟩
  | t :: ts, p => (countedVisit t p).andThen (countedVisitAll ts)

end

/-- A walk ends with the count that it began with, and within a definition it binds nothing. -/
structure Framed (p p' : Progress) : Prop where
  /-- The count is the same. -/
  nesting : p'.nesting = p.nesting
  /-- In a definition, the scope is the same. -/
  scope : p.nesting ≠ 0 → p'.found.scope = p.found.scope

namespace Framed

variable {p p' p'' : Progress}

theorem refl (p : Progress) : Framed p p := ⟨rfl, fun _ => rfl⟩

theorem trans (h : Framed p p') (h' : Framed p' p'') : Framed p p'' where
  nesting := h'.nesting.trans h.nesting
  scope hp := (h'.scope (h.nesting ▸ hp)).trans (h.scope hp)

theorem bind (p : Progress) (change : Scope → Scope) : Framed p (p.bind change) where
  nesting := Progress.nesting_bind
  scope hp := by rw [Progress.bind_of_inner hp]

theorem andThen {h : Halt} {next : Progress → Halt} (hp : Framed p h.progress)
    (hnext : ∀ p', Framed p' (next p').progress) : Framed p (h.andThen next).progress := by
  unfold Halt.andThen
  split
  · exact hp
  · exact hp.trans (hnext h.progress)

/-- What goes on in a definition changes nothing outside of it. -/
theorem leave (h : Framed p.enter p') : p'.leave.nesting = p.nesting ∧
    p'.leave.found.scope = p.found.scope := by
  refine ⟨?_, h.scope (Nat.succ_ne_zero _)⟩
  rw [Progress.nesting_leave, h.nesting, Progress.nesting_enter, Nat.add_sub_cancel]

end Framed

theorem scope_of_recordCall {setting : Setting} {script : Script} {t : Tree} {f f' : Found}
    (h : recordCall setting script t f = .ok f') : f'.scope = f.scope := by
  obtain ⟨c, -, rfl⟩ := exists_of_map_eq_ok h
  rfl

theorem framed_ofStep (t : Tree) (p : Progress) :
    Framed p (Halt.ofStep p (recordCall setting script t p.found)).progress := by
  cases h : recordCall setting script t p.found with
  | error e => exact .refl p
  | ok f => exact ⟨rfl, fun _ => scope_of_recordCall h⟩

theorem framed_countedVisitAll_of_forall {ts : List Tree}
    (h : ∀ t ∈ ts, ∀ p, Framed p (countedVisit setting script t p).progress) (p : Progress) :
    Framed p (countedVisitAll setting script ts p).progress := by
  induction ts generalizing p with
  | nil => exact .refl p
  | cons t ts ih =>
    rw [countedVisitAll]
    exact (h t (List.mem_cons_self ..) p).andThen (ih fun u hu => h u (List.mem_cons_of_mem t hu))

theorem framed_countedVisit (t : Tree) (p : Progress) :
    Framed p (countedVisit setting script t p).progress := by
  induction t using Tree.inductionOn generalizing p with
  | node k r sp cs ih =>
    have hall := framed_countedVisitAll_of_forall setting script ih
    simp only [countedVisit]
    split
    · exact framed_ofStep ..
    split
    · -- below a definition the count is not zero, so the scope is left alone whatever it was outside
      obtain ⟨hnesting, hscope⟩ := (hall _).leave
      exact (Framed.bind p _).trans ⟨hnesting, fun _ => hscope⟩
    split
    · exact .bind ..
    · exact ((Framed.bind p _).trans (hall _)).andThen fun p' => .bind ..

theorem framed_countedVisitAll (ts : List Tree) (p : Progress) :
    Framed p (countedVisitAll setting script ts p).progress :=
  framed_countedVisitAll_of_forall setting script (fun t _ => framed_countedVisit setting script t) p

/-! ## The counting walk is the walk -/

theorem visitAll_eq_outcome_of_forall {ts : List Tree}
    (h : ∀ t ∈ ts, ∀ p, visit setting script (p.nesting != 0) t p.found =
      (countedVisit setting script t p).outcome) (p : Progress) :
    visitAll setting script (p.nesting != 0) ts p.found =
      (countedVisitAll setting script ts p).outcome := by
  induction ts generalizing p with
  | nil => rfl
  | cons t ts ih =>
    have hnesting := (framed_countedVisit setting script t p).nesting
    rw [visitAll, countedVisitAll, h t (List.mem_cons_self ..), Halt.andThen, Halt.outcome]
    cases herror : (countedVisit setting script t p).error? with
    | some e => simp only [Halt.outcome, herror]
    | none =>
      -- the next node is walked with the count that the first one was walked with
      rw [← hnesting]
      exact ih (fun u hu => h u (List.mem_cons_of_mem t hu)) _

/-- A definition binds its name, before what is in it is walked, and nothing else. -/
theorem binds_of_opensScope (source : Text) {t : Tree} (h : opensScope t.kind = true) :
    isImport t.kind = false ∧ bindBefore source t = forgetDefinition source t ∧
      bindAfter source t = id := by
  unfold opensScope at h
  split at h
  case h_4 => simp at h
  all_goals
    next hkind =>
    refine ⟨by rw [hkind]; rfl, funext fun s => ?_, funext fun s => ?_⟩
    · simp only [bindBefore, hkind]
    · simp only [bindAfter, hkind, id_eq]

theorem Halt.outcome_leave (h : Halt) :
    Halt.outcome { h with progress := h.progress.leave } = h.outcome := by
  unfold Halt.outcome
  cases h.error? <;> rfl

theorem Halt.outcome_andThen_bind (h : Halt) (change : Scope → Scope) :
    (h.andThen fun p' => ⟨none, p'.bind change⟩).outcome =
      if h.progress.nesting = 0 then h.outcome.map fun f => f.withScope change else h.outcome := by
  obtain ⟨error?, p'⟩ := h
  cases error? with
  | some e => exact (ite_self _).symm
  | none => exact apply_ite (fun p : Progress => Except.ok p.found) ..

/-- The walk that counts definitions finds what the walk finds that is told when it is in one. -/
theorem visit_eq_outcome (t : Tree) (p : Progress) :
    visit setting script (p.nesting != 0) t p.found = (countedVisit setting script t p).outcome := by
  induction t using Tree.inductionOn generalizing p with
  | node k r sp cs ih =>
    have hall := visitAll_eq_outcome_of_forall setting script ih
    simp only [visit, countedVisit]
    split
    · cases recordCall setting script (.node k r sp cs) p.found <;> rfl
    by_cases hscope : opensScope k = true
    · -- a definition is entered, so what is below it is walked with a count that is not zero
      obtain ⟨himport, hbefore, hafter⟩ :=
        binds_of_opensScope script.source (t := .node k r sp cs) hscope
      have hbelow := hall (p.bind (forgetDefinition script.source (.node k r sp cs))).enter
      have hentered : ∀ p : Progress, (p.enter.nesting != 0) = true := fun p => rfl
      rw [hentered, Progress.found_enter] at hbelow
      rw [if_pos hscope, Halt.outcome_leave, ← hbelow, hscope, hbefore, hafter]
      by_cases hnesting : p.nesting = 0
      · rw [Progress.bind_of_outer hnesting, hnesting]
        simp only [bne_self_eq_false, Bool.false_eq_true, if_false,
          show isImport k = false from himport]
        cases visitAll setting script true cs _ <;> rfl
      · rw [Progress.bind_of_inner hnesting, if_pos (by simpa using hnesting)]
    -- what binds names in other nodes binds them where no definition is open
    have hbelow := hall (p.bind (bindBefore script.source (.node k r sp cs)))
    have hsame := (framed_countedVisitAll setting script cs
      (p.bind (bindBefore script.source (.node k r sp cs)))).nesting
    rw [Progress.nesting_bind] at hbelow hsame
    rw [if_neg hscope, Bool.eq_false_iff.2 hscope]
    by_cases hnesting : p.nesting = 0
    · rw [hnesting, bne_self_eq_false] at hbelow ⊢
      rw [if_neg Bool.false_ne_true, beq_self_eq_true, Bool.and_true]
      split
      · rw [Progress.bind_of_outer hnesting]
        rfl
      · rw [Halt.outcome_andThen_bind, if_pos (hsame.trans hnesting), ← hbelow,
          Progress.bind_of_outer hnesting]
    · have hinner : (p.nesting != 0) = true := by simpa using hnesting
      have himport : (isImport k && p.nesting == 0) = false := by simp [hnesting]
      have hbind : ∀ change, p.bind change = p := fun _ => Progress.bind_of_inner hnesting
      rw [hinner, hbind] at hbelow
      rw [hbind] at hsame
      rw [hinner, if_pos rfl, himport, if_neg Bool.false_ne_true, Halt.outcome_andThen_bind, hbind,
        if_neg (hsame ▸ hnesting), hbelow]

/-! ## Definitions -/

/-- A walk over a definition changes the scope by the name of the definition. -/
theorem scope_countedVisit_definition {t : Tree} {p : Progress} (hscope : opensScope t.kind = true)
    (hnesting : p.nesting = 0) : (countedVisit setting script t p).progress.found.scope =
      forgetDefinition script.source t p.found.scope := by
  obtain ⟨k, r, sp, cs⟩ := t
  have hcall : ¬ isDeprecatedCall script.source p.found.scope (.node k r sp cs) = true := by
    intro hcall
    have hkind : k = .call := kind_of_isDeprecatedCall hcall
    subst hkind
    simp [Tree.kind, opensScope] at hscope
  rw [countedVisit, if_neg hcall, if_pos (show opensScope k = true from hscope)]
  refine (framed_countedVisitAll setting script cs _).leave.2.trans ?_
  rw [Progress.bind_of_outer hnesting]
  rfl

theorem opensScope_of_mem {k : Kind} (h : k ∈ [.functionDefinition, .classDefinition, .lambda]) :
    opensScope k = true := by
  simp only [List.mem_cons, List.not_mem_nil, or_false] at h
  rcases h with rfl | rfl | rfl <;> rfl

/-! ## Independence -/

/-- A walk over a node that counts definitions, and the walk that is told when it is in one. -/
structure Counts (setting : Setting) (script : Script) (t : Tree) (p : Progress) : Prop where
  /-- They have the same outcome. -/
  outcome : visit setting script (p.nesting != 0) t p.found =
    (countedVisit setting script t p).outcome
  /-- The count is restored, whatever the outcome is. -/
  nesting : (countedVisit setting script t p).progress.nesting = p.nesting
  /-- A definition of the script itself takes its name out of the scope and does nothing else to it,
      whatever the outcome is. -/
  definition : p.nesting = 0 → t.kind ∈ [.functionDefinition, .classDefinition, .lambda] →
    ∀ name, t.child? .name = some name → (countedVisit setting script t p).progress.found.scope =
      p.found.scope.forget (name.text script.source)
  /-- Without a name it does nothing to the scope. -/
  anonymous : p.nesting = 0 → t.kind ∈ [.functionDefinition, .classDefinition, .lambda] →
    t.child? .name = none → (countedVisit setting script t p).progress.found.scope = p.found.scope

theorem counts (t : Tree) (p : Progress) : Counts setting script t p where
  outcome := visit_eq_outcome setting script t p
  nesting := (framed_countedVisit setting script t p).nesting
  definition hnesting hkind name hname := by
    rw [scope_countedVisit_definition setting script (opensScope_of_mem hkind) hnesting,
      forgetDefinition, hname]
  anonymous hnesting hkind hname := by
    rw [scope_countedVisit_definition setting script (opensScope_of_mem hkind) hnesting,
      forgetDefinition, hname]

/-- Two migrations of a script that do not fail find the same calls and end with the same scope, whatever
    their settings are. A function, class or lambda of the script itself changes the scope by its own
    name only, whatever is bound in it, and a lambda does not change it. -/
theorem independent_of_setting (file : String) (source : Text) :
    (∀ script setting setting' f f', find setting script = .ok f → find setting' script = .ok f' →
      f.scope = f'.scope ∧ f.calls.map MigratedCall.place = f'.calls.map MigratedCall.place) ∧
    (∀ script setting t p, Counts setting script t p) ∧
    (∀ script, Script.read file source = .ok script → ∀ t ∈ script.root.nodes, t.kind = .lambda →
      ∀ setting p, p.nesting = 0 →
        (countedVisit setting script t p).progress.found.scope = p.found.scope) := by
  refine ⟨?_, ?_, ?_⟩
  · intro script setting setting' f f' hfind hfind'
    constructor
    · have hscope := ((find_eq_ok_iff setting script f).1 hfind).2
      exact hscope.trans ((find_eq_ok_iff setting' script f').1 hfind').2.symm
    · rw [places_eq setting script hfind, places_eq setting' script hfind']
  · intro script setting t p
    exact counts setting script t p
  · intro script hread t ht hkind setting p hnesting
    exact (counts setting script t p).anonymous hnesting (by simp [hkind])
      (Syntax.name_of_lambda (parse_of_read hread).1 t ht hkind)

/-- A function and a lambda in which other names are bound, and the name of the class among them, and a
    call behind them. With a store that cannot be reached the image of its block is not known, with a
    catalog it is; the call is found both times. -/
theorem independent_of_reachable_store : ∃ script f f' function lambda,
    Script.read "flow.py" ("def f(x):\n    import a\n    Deployment = 1\n" ++
      "g = lambda z: (Deployment := z)\n" ++
      "Deployment.build_from_flow(f, infrastructure=DockerContainer(image=\"a/b\"))\n").toList =
        .ok script ∧
    find ⟨.offline, .standard⟩ script = .ok f ∧
    find ⟨Catalog.empty.resolver, .standard⟩ script = .ok f' ∧
    f.scope = f'.scope ∧ f.calls.map MigratedCall.place = f'.calls.map MigratedCall.place ∧
    f.calls.map (fun c => c.classified.environment.bind (·.image)) = [none] ∧
    f'.calls.map (fun c => c.classified.environment.bind (·.image)) = [some "a/b"] ∧
    function.kind = .functionDefinition ∧ lambda.kind = .lambda ∧
    (countedVisit ⟨.offline, .standard⟩ script function ⟨f, 0⟩).progress.found.scope =
      f.scope.forget "f" ∧
    (countedVisit ⟨.offline, .standard⟩ script lambda ⟨f, 0⟩).progress.found.scope = f.scope := by
  have hrun : (Script.read "flow.py" ("def f(x):\n    import a\n    Deployment = 1\n" ++
      "g = lambda z: (Deployment := z)\n" ++
      "Deployment.build_from_flow(f, infrastructure=DockerContainer(image=\"a/b\"))\n").toList).map
      (fun s => ((find ⟨.offline, .standard⟩ s).map fun f =>
          f.calls.map fun c => c.classified.environment.bind (·.image),
        (find ⟨Catalog.empty.resolver, .standard⟩ s).map fun f =>
          f.calls.map fun c => c.classified.environment.bind (·.image),
        s.root.nodes.any fun t => t.kind == .functionDefinition &&
          (t.child? .name).map (Tree.text s.source) == some "f",
        s.root.nodes.any fun t => t.kind == .lambda)) =
      .ok (.ok [none], .ok [some "a/b"], true, true) := by
    decide +kernel
  obtain ⟨script, hread, hg⟩ := exists_of_map_eq_ok hrun
  simp only [Prod.mk.injEq] at hg
  obtain ⟨hfind, hfind', hfunction, hlambda⟩ := hg
  obtain ⟨f, hf, himage⟩ := exists_of_map_eq_ok hfind
  obtain ⟨f', hf', himage'⟩ := exists_of_map_eq_ok hfind'
  obtain ⟨function, -, hfunction⟩ := List.any_eq_true.1 hfunction
  obtain ⟨lambda, hmem, hlambda⟩ := List.any_eq_true.1 hlambda
  rw [Bool.and_eq_true, beq_iff_eq, beq_iff_eq] at hfunction
  obtain ⟨hkind, hname⟩ := hfunction
  obtain ⟨name, hname, htext⟩ := Option.map_eq_some_iff.1 hname
  have hkind' : lambda.kind = .lambda := by simpa using hlambda
  obtain ⟨htwo, hcounts, hlambdas⟩ := independent_of_setting "flow.py"
    ("def f(x):\n    import a\n    Deployment = 1\n" ++ "g = lambda z: (Deployment := z)\n" ++
      "Deployment.build_from_flow(f, infrastructure=DockerContainer(image=\"a/b\"))\n").toList
  obtain ⟨hscope, hplaces⟩ := htwo script _ _ f f' hf hf'
  exact ⟨script, f, f', function, lambda, hread, hf, hf', hscope, hplaces, himage, himage', hkind,
    hkind', htext ▸ (hcounts script _ function ⟨f, 0⟩).definition rfl (by simp [hkind]) name hname,
    hlambdas script hread lambda hmem hkind' _ ⟨f, 0⟩ rfl⟩

end Migration

end Redeploy
