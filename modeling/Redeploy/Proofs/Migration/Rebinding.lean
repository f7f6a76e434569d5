import Redeploy.Proofs.Migration.Heeded

set_option autoImplicit false

/-! # Names that are bound again

A name whose value was known is forgotten where the script binds it in a way that does not tell the
value. `Rebinds` says which nodes do so and `Establishes` which nodes tell the value. At a call behind
the last node that tells the value of a name, the scope knows nothing of the name if a node behind
that one rebinds it (`forgets_rebound`), and it still knows the name if none does
(`knows_of_not_rebound`).

Neither says anything of the nodes that a walk does not heed. A match statement has no node of a kind
that rebinds: the name in `case name:` stays what it was (`stale_behind_match`). -/

namespace Redeploy.Migration

open Syntax (Tree Kind)

variable {source : Text} {script : Script} {a : Arrival} {name : String} {x : Tree}

/-! ## Targets -/

/-- A target binds a name: it is the name, or a group of targets one of which binds the name. An
    attribute or a subscript binds no name. -/
inductive Targets (source : Text) : Tree → String → Prop
  | name {t : Tree} (hkind : t.kind = .identifier) : Targets source t (t.text source)
  | bare {t : Tree} (hkind : t.kind = .asPatternTarget) (hleaf : t.children = []) :
      Targets source t (t.text source)
  | group {t c : Tree} {name : String}
      (hkind : t.kind ≠ .identifier ∧ t.kind ≠ .attributeAccess ∧ t.kind ≠ .subscript)
      (hc : c ∈ t.children) (h : Targets source c name) : Targets source t name

theorem mem_boundNamesAll {ts : List Tree} : name ∈ Script.boundNamesAll source ts ↔
    ∃ t ∈ ts, name ∈ Script.boundNames source t := by
  induction ts with
  | nil => simp [Script.boundNamesAll]
  | cons t ts ih => simp [Script.boundNamesAll, ih]

theorem mem_boundNames_of_targets {t : Tree} (h : Targets source t name) :
    name ∈ Script.boundNames source t := by
  induction h with
  | @name t hkind =>
    obtain ⟨k, r, sp, cs⟩ := t
    obtain rfl : k = .identifier := hkind
    simp [Script.boundNames]
  | @bare t hkind hleaf =>
    obtain ⟨k, r, sp, cs⟩ := t
    obtain rfl : k = .asPatternTarget := hkind
    obtain rfl : cs = [] := hleaf
    simp [Script.boundNames]
  | @group t c name hkind hc _ ih =>
    obtain ⟨k, r, sp, cs⟩ := t
    obtain ⟨hname, hattribute, hsubscript⟩ := hkind
    have hall : name ∈ Script.boundNamesAll source cs := mem_boundNamesAll.2 ⟨c, hc, ih⟩
    unfold Script.boundNames
    split
    · exact absurd rfl hname
    · exact absurd rfl hattribute
    · exact absurd rfl hsubscript
    · rw [if_neg]
      · exact hall
      · intro hempty
        rw [List.isEmpty_iff.1 hempty] at hall
        simp [Script.boundNamesAll] at hall
    · exact hall

theorem targets_of_mem_boundNames {t : Tree} (h : name ∈ Script.boundNames source t) :
    Targets source t name := by
  induction t using Tree.inductionOn with
  | node k r sp cs ih =>
    have hgroup : k ≠ .identifier ∧ k ≠ .attributeAccess ∧ k ≠ .subscript →
        name ∈ Script.boundNamesAll source cs → Targets source (.node k r sp cs) name := by
      intro hkind h
      obtain ⟨c, hc, h⟩ := mem_boundNamesAll.1 h
      exact .group hkind hc (ih c hc h)
    unfold Script.boundNames at h
    split at h
    · obtain rfl := List.mem_singleton.1 h
      exact .name rfl
    · exact absurd h List.not_mem_nil
    · exact absurd h List.not_mem_nil
    · split at h
      · next hleaf =>
        obtain rfl := List.mem_singleton.1 h
        exact .bare rfl (List.isEmpty_iff.1 hleaf)
      · exact hgroup (by decide) h
    · next hname hattribute hsubscript _ => exact hgroup ⟨hname, hattribute, hsubscript⟩ h

/-- The names that a target binds are listed. -/
theorem mem_boundNames {t : Tree} : name ∈ Script.boundNames source t ↔ Targets source t name :=
  ⟨targets_of_mem_boundNames, mem_boundNames_of_targets⟩

/-! ## Nodes that rebind, and nodes that tell a value -/

/-- A node binds a name and does not tell its value: an assignment that is not one of a value to a
    single name, a change in place, the target of a loop, the name behind an `as`, an assignment within
    an expression, or the name of a definition. -/
inductive Rebinds (source : Text) (x : Tree) : String → Prop
  | assignment {target : Tree} {name : String} (hkind : x.kind = .assignment)
      (hmany : Script.assignmentTarget? source x = none) (htarget : x.child? .left = some target)
      (h : Targets source target name) : Rebinds source x name
  | change {target : Tree} {name : String} (hkind : x.kind = .augmentedAssignment)
      (htarget : x.child? .left = some target) (h : Targets source target name) :
      Rebinds source x name
  | loop {target : Tree} {name : String} (hkind : x.kind = .forStatement)
      (htarget : x.child? .left = some target) (h : Targets source target name) :
      Rebinds source x name
  | asName {name : String} (hkind : x.kind = .asPatternTarget) (h : Targets source x name) :
      Rebinds source x name
  | within {target : Tree} {name : String} (hkind : x.kind = .namedExpression)
      (htarget : x.child? .name = some target) (h : Targets source target name) :
      Rebinds source x name
  | definition {target : Tree} (hkind : opensScope x.kind = true)
      (htarget : x.child? .name = some target) : Rebinds source x (target.text source)

/-- A node binds a name and tells what it stands for: an import, or an assignment of a value to a single
    name. -/
inductive Establishes (source : Text) (x : Tree) : String → Prop
  | imported {i : Import} (hi : i ∈ Script.importsOf source x) : Establishes source x i.boundName
  | assigned {name : String} {value : Tree}
      (h : Script.assignmentTarget? source x = some (name, value)) : Establishes source x name

theorem mem_forgottenIn {r : Syntax.Role} {b : Binding} : b ∈ forgottenIn source r x ↔
    ∃ target, x.child? r = some target ∧ ∃ name, Targets source target name ∧
      b = .forgotten name := by
  unfold forgottenIn
  cases x.child? r with
  | none => simp
  | some target => simp [mem_boundNames, eq_comm]

theorem Rebinds.mem_bindings (h : Rebinds source x name) : .forgotten name ∈ bindings source x := by
  cases h with
  | assignment hkind hmany htarget h =>
    simp only [bindings, hkind, hmany]
    exact mem_forgottenIn.2 ⟨_, htarget, _, h, rfl⟩
  | change hkind htarget h | loop hkind htarget h | within hkind htarget h =>
    simp only [bindings, hkind]
    exact mem_forgottenIn.2 ⟨_, htarget, _, h, rfl⟩
  | asName hkind h =>
    simp only [bindings, hkind]
    exact List.mem_map_of_mem (mem_boundNames.2 h)
  | @definition target hkind htarget =>
    unfold opensScope at hkind
    split at hkind
    case h_4 => simp at hkind
    all_goals
      next heq => simp [bindings, heq, htarget]

theorem Establishes.of_mem_bindings {b : Binding} (hb : b ∈ bindings source x)
    (hknown : ∀ name, b ≠ .forgotten name) : Establishes source x b.boundName := by
  have hforgotten : ∀ {names : List String}, b ∉ names.map Binding.forgotten := by
    intro names hb
    obtain ⟨name, -, rfl⟩ := List.mem_map.1 hb
    exact hknown name rfl
  have htargets : ∀ {r}, b ∉ forgottenIn source r x := by
    intro r hb
    obtain ⟨-, -, name, -, rfl⟩ := mem_forgottenIn.1 hb
    exact hknown name rfl
  unfold bindings at hb
  split at hb
  case h_1 | h_2 =>
    obtain ⟨i, hi, rfl⟩ := List.mem_map.1 hb
    exact .imported hi
  case h_3 | h_4 | h_5 =>
    obtain ⟨name, -, rfl⟩ := List.mem_map.1 hb
    exact absurd rfl (hknown _)
  case h_6 | h_7 | h_8 => exact absurd hb htargets
  case h_9 => exact absurd hb hforgotten
  case h_10 =>
    split at hb
    · next heq =>
      obtain rfl := List.mem_singleton.1 hb
      exact .assigned heq
    · exact absurd hb htargets
  case h_11 => simp at hb

theorem Establishes.exists_binding (h : Establishes source x name) :
    ∃ b ∈ bindings source x, b.boundName = name ∧ ∀ name', b ≠ .forgotten name' := by
  cases h with
  | @imported i hi =>
    have hkind : x.kind = .importStatement ∨ x.kind = .importFromStatement := by
      unfold Script.importsOf at hi
      split at hi
      · exact .inl ‹_›
      · exact .inr ‹_›
      · simp at hi
    refine ⟨.imported i, ?_, rfl, fun _ => Binding.noConfusion⟩
    rcases hkind with hkind | hkind <;>
    · simp only [bindings, hkind]
      exact List.mem_map_of_mem hi
  | @assigned name value h =>
    have hkind : x.kind = .assignment := by
      unfold Script.assignmentTarget? at h
      split at h
      · next hkind => exact beq_iff_eq.1 hkind
      · simp at h
    refine ⟨.assigned name (Script.lower source value), ?_, rfl, fun _ => Binding.noConfusion⟩
    simp [bindings, hkind, h]

theorem Rebinds.of_mem_bindings (hb : .forgotten name ∈ bindings source x) :
    Rebinds source x name := by
  have hforgotten : ∀ {names : List String}, Binding.forgotten name ∈ names.map Binding.forgotten →
      name ∈ names := by
    intro names hb
    obtain ⟨name', hname, heq⟩ := List.mem_map.1 hb
    rwa [← Binding.forgotten.inj heq]
  have htargets : ∀ {r}, Binding.forgotten name ∈ forgottenIn source r x →
      ∃ target, x.child? r = some target ∧ Targets source target name := by
    intro r hb
    obtain ⟨target, htarget, name', h, heq⟩ := mem_forgottenIn.1 hb
    exact ⟨target, htarget, Binding.forgotten.inj heq ▸ h⟩
  unfold bindings at hb
  split at hb
  case h_1 | h_2 => simp at hb
  case h_3 | h_4 | h_5 =>
    obtain ⟨target, htarget, heq⟩ := List.mem_map.1 hb
    rw [← Binding.forgotten.inj heq]
    exact .definition (by simp [opensScope, *]) (Option.mem_toList.1 htarget)
  case h_6 hkind =>
    obtain ⟨target, htarget, h⟩ := htargets hb
    exact .loop hkind htarget h
  case h_7 hkind =>
    obtain ⟨target, htarget, h⟩ := htargets hb
    exact .change hkind htarget h
  case h_8 hkind =>
    obtain ⟨target, htarget, h⟩ := htargets hb
    exact .within hkind htarget h
  case h_9 hkind => exact .asName hkind (mem_boundNames.1 (hforgotten hb))
  case h_10 hkind =>
    split at hb
    · simp at hb
    · next hmany =>
      obtain ⟨target, htarget, h⟩ := htargets hb
      exact .assignment hkind hmany htarget h
  case h_11 => simp at hb

/-! ## What the scope knows of a name -/

theorem pairwise_heededIn (hnested : script.root.Nested) :
    (heededIn script).Pairwise fun e e' => e.offset ≤ e'.offset :=
  pairwise_heeded hnested (Tree.nested_iff.1 hnested).1.le

/-- Where a walk comes to a node, the scope knows nothing of a name, or what the last of the bindings
    that are heeded in front of the node makes of it. -/
theorem nothing_or_last (hnested : script.root.Nested) (ha : a ∈ Script.arrivals script)
    (name : String) : ∃ past future, Cut script.source .empty (heededIn script) a past future ∧
      ((a.scope.assignment? name = none ∧ a.scope.importFor? name = none ∧
        ∀ e ∈ past, e.binding.boundName ≠ name) ∨
      ∃ before e behind, past = before ++ e :: behind ∧ e.binding.boundName = name ∧
        (∀ e' ∈ behind, e'.binding.boundName ≠ name) ∧
        a.scope.assignment? name = e.binding.value? ∧
        a.scope.importFor? name = e.binding.import?) := by
  obtain ⟨past, future, hcut, hscope⟩ := exists_past hnested ha
  refine ⟨past, future, hcut, ?_⟩
  rw [hscope, Binding.assignment?_replay, Binding.importFor?_replay]
  cases hlast : Binding.lastBinding? name (past.map Heeded.binding) with
  | none =>
    refine .inl ⟨rfl, rfl, fun e he heq => ?_⟩
    exact Binding.lastBinding?_eq_none.1 hlast e.binding (List.mem_map_of_mem he) heq
  | some b =>
    obtain ⟨before, behind, hpast, hname, hbehind⟩ := Binding.lastBinding?_eq_some.1 hlast
    obtain ⟨before, rest, rfl, rfl, hrest⟩ := List.map_eq_append_iff.1 hpast
    obtain ⟨e, behind, rfl, rfl, rfl⟩ := List.map_eq_cons_iff.1 hrest
    refine .inr ⟨before, e, behind, rfl, hname, fun e' he' => ?_, rfl, rfl⟩
    exact hbehind e'.binding (List.mem_map_of_mem he')

/-- What is heeded in front of a call that is met is part of what has led to the scope there. -/
theorem mem_past (hnested : script.root.Nested) (ha : a ∈ Script.arrivals script)
    (hcall : a.isDeprecated script.source = true) {past future : List Heeded} {e : Heeded}
    (hcut : Cut script.source .empty (heededIn script) a past future) (he : e ∈ heededIn script)
    (hoffset : e.offset ≤ a.node.span.startByte) : e ∈ past := by
  rw [hcut.eq] at he
  refine (List.mem_append.1 he).resolve_right fun hfuture => ?_
  have hend := hcut.behind hcall e hfuture
  have hnode := node_mem_of_mem_arrivals ha
  have hbounds := hnested.bounds (Tree.nested_iff.1 hnested).1.le hnode
  have := lt_of_isDeprecatedCall (hnested.of_mem_nodes hnode) hbounds.2.1 hcall
  omega

/-- Whatever is heeded of a name stands in front of the last that is. -/
theorem eq_or_le_last {before behind future : List Heeded} {e e' : Heeded}
    (hnested : script.root.Nested)
    (hcut : Cut script.source .empty (heededIn script) a (before ++ e :: behind) future)
    (hnone : ∀ e' ∈ behind, e'.binding.boundName ≠ name) (hname : e'.binding.boundName = name)
    (he' : e' ∈ before ++ e :: behind) : e' = e ∨ e'.offset ≤ e.offset := by
  have hordered := pairwise_heededIn hnested
  rw [hcut.eq] at hordered
  rcases List.mem_append.1 he' with h | h
  · exact .inr ((List.pairwise_append.1 (List.pairwise_append.1 hordered).1).2.2 _ h e
      (List.mem_cons_self ..))
  · rcases List.mem_cons.1 h with h | h
    · exact .inl h
    · exact absurd hname (hnone e' h)

section Call

variable (hnested : script.root.Nested) (ha : a ∈ Script.arrivals script)
  (hcall : a.isDeprecated script.source = true) (hx : x ∈ outerNodes script.root)
  (hclear : ∀ b ∈ Script.arrivals script, b.isDeprecated script.source = true → ¬ IsBelow x b.node)
include hnested ha hcall hx hclear

/-- At a call that is met, the scope knows nothing of a name that is rebound in front of the call, if
    every node in front of the call that tells what the name stands for comes before the one that
    rebinds it. The latter must be one that the walk heeds: not within a call that is met, nor within a
    function, class or lambda. -/
theorem forgets_rebound (hrebinds : Rebinds script.source x name)
    (hfront : bindingOffset x ≤ a.node.span.startByte)
    (hlast : ∀ y ∈ outerNodes script.root, Establishes script.source y name →
      bindingOffset y ≤ a.node.span.startByte → bindingOffset y < bindingOffset x) :
    a.scope.assignment? name = none ∧ a.scope.importFor? name = none := by
  obtain ⟨past, future, hcut, hnothing | ⟨before, e, behind, rfl, hname, hnone, hvalue, himport⟩⟩ :=
    nothing_or_last hnested ha name
  · exact ⟨hnothing.1, hnothing.2.1⟩
  have hheeded : ⟨x, .forgotten name⟩ ∈ heededIn script := by
    rcases heeds_or_below script.source .empty hx with h | ⟨b, hb, hmet, hbelow⟩
    · exact h _ hrebinds.mem_bindings
    · exact absurd hbelow (hclear b hb hmet)
  have hforgotten : e.binding = .forgotten name := by
    by_contra hne
    have hmem : e ∈ before ++ e :: behind := by simp
    obtain ⟨hy, hb⟩ := mem_outerNodes_of_mem_heeded (hcut.eq ▸ List.mem_append_left _ hmem)
    have hestablishes : Establishes script.source e.node name := by
      rw [← hname]
      refine .of_mem_bindings hb fun name' heq => hne ?_
      rw [← hname, heq]
      rfl
    have hlt := hlast e.node hy hestablishes (hcut.before e hmem)
    rcases eq_or_le_last hnested hcut hnone rfl
        (mem_past hnested ha hcall hcut hheeded hfront) with rfl | hle
    · exact hne rfl
    · exact absurd (show bindingOffset x ≤ bindingOffset e.node from hle) (by omega)
  rw [hvalue, himport, hforgotten]
  exact ⟨rfl, rfl⟩

/-- At a call that is met, the scope knows the value of a name or what the name was imported as, if a
    node that tells so stands in front of the call and no node from there on rebinds the name. -/
theorem knows_of_not_rebound (hestablishes : Establishes script.source x name)
    (hfront : bindingOffset x ≤ a.node.span.startByte)
    (hnot : ∀ y ∈ outerNodes script.root, bindingOffset x ≤ bindingOffset y →
      bindingOffset y ≤ a.node.span.startByte → ¬ Rebinds script.source y name) :
    (a.scope.assignment? name).isSome ∨ (a.scope.importFor? name).isSome := by
  obtain ⟨b, hb, hbound, hknown⟩ := hestablishes.exists_binding
  have hheeded : ⟨x, b⟩ ∈ heededIn script := by
    rcases heeds_or_below script.source .empty hx with h | ⟨c, hc, hmet, hbelow⟩
    · exact h _ hb
    · exact absurd hbelow (hclear c hc hmet)
  obtain ⟨past, future, hcut, ⟨-, -, hnothing⟩ | ⟨before, e, behind, rfl, hname, hnone, hvalue,
    himport⟩⟩ := nothing_or_last hnested ha name
  · exact absurd hbound (hnothing _ (mem_past hnested ha hcall hcut hheeded hfront))
  rw [hvalue, himport]
  cases hbinding : e.binding with
  | assigned other value => exact .inl rfl
  | imported i => exact .inr rfl
  | forgotten other =>
    have hmem : e ∈ before ++ e :: behind := by simp
    obtain ⟨hy, hb'⟩ := mem_outerNodes_of_mem_heeded (hcut.eq ▸ List.mem_append_left _ hmem)
    obtain rfl : other = name := by rw [← hname, hbinding]; rfl
    rw [hbinding] at hb'
    rcases eq_or_le_last hnested hcut hnone hbound
        (mem_past hnested ha hcall hcut hheeded hfront) with rfl | hle
    · exact absurd hbinding (hknown other)
    · exact absurd (Rebinds.of_mem_bindings hb') (hnot e.node hy hle (hcut.before e hmem))

end Call

/-- A name that was assigned is forgotten at a loop over it. -/
theorem forgets_loop_target : ∃ script f a,
    Script.read "flow.py" ("infra = g()\nfor infra in xs:\n    pass\n" ++
      "Deployment.build_from_flow(f, infrastructure=infra)\n").toList = .ok script ∧
    find ⟨.offline, .standard⟩ script = .ok f ∧ a ∈ Script.arrivals script ∧
    a.isDeprecated script.source = true ∧ a.scope.assignment? "infra" = none ∧
    a.scope.importFor? "infra" = none := by
  have hrun : ((Script.read "flow.py" ("infra = g()\nfor infra in xs:\n    pass\n" ++
      "Deployment.build_from_flow(f, infrastructure=infra)\n").toList).bind fun s =>
        (find ⟨.offline, .standard⟩ s).map fun _ =>
          ((outerNodes s.root).any fun x => x.kind == .forStatement &&
            ((x.child? .left).any fun t => (Script.boundNames s.source t).contains "infra") &&
            (Script.arrivals s).any fun a => a.isDeprecated s.source &&
              decide (bindingOffset x ≤ a.node.span.startByte) &&
              (outerNodes s.root).all fun y => (bindings s.source y).all fun b =>
                b.boundName != "infra" || (b.value?.isNone && b.import?.isNone) ||
                  decide (bindingOffset y < bindingOffset x)) &&
          (Script.arrivals s).all fun a => !a.isDeprecated s.source ||
            a.node.nodes.all fun y => y.kind != .forStatement) = .ok true := by
    decide +kernel
  obtain ⟨script, f, hread, hfind, hg⟩ := exists_of_run hrun
  simp only [Bool.and_eq_true, List.any_eq_true, List.all_eq_true, Bool.or_eq_true,
    Option.any_eq_true, beq_iff_eq, bne_iff_ne, decide_eq_true_eq, Bool.not_eq_true',
    List.contains_iff_mem] at hg
  obtain ⟨⟨x, hx, ⟨hkind, target, htarget, hname⟩, a, ha, ⟨hcall, hfront⟩, hlast⟩, hclear⟩ := hg
  refine ⟨script, f, a, hread, hfind, ha, hcall, forgets_rebound
    (Syntax.nested_of_parse (parse_of_read hread).1) ha hcall hx ?_
    (.loop hkind htarget (mem_boundNames.1 hname)) hfront ?_⟩
  · intro b hb hmet hbelow
    rcases hclear b hb with h | h
    · exact absurd hmet (by simp [h])
    · exact h x hbelow.mem_nodes hkind
  · intro y hy hestablishes _
    obtain ⟨b, hb, hbound, hknown⟩ := hestablishes.exists_binding
    rcases hlast y hy b hb with (h | h) | h
    · exact absurd hbound h
    · cases b with
      | imported i => simp [Binding.import?] at h
      | assigned other value => simp [Binding.value?] at h
      | forgotten other => exact absurd rfl (hknown other)
    · exact h

/-- A name that was assigned is still known behind a match statement that captures something by that
    name. -/
theorem stale_behind_match : ∃ script f x a,
    Script.read "flow.py" ("infra = g()\nmatch v:\n    case infra:\n        pass\n" ++
      "Deployment.build_from_flow(f, infrastructure=infra)\n").toList = .ok script ∧
    find ⟨.offline, .standard⟩ script = .ok f ∧
    x ∈ outerNodes script.root ∧ x.kind = .casePattern ∧ x.text script.source = "infra" ∧
    a ∈ Script.arrivals script ∧ a.isDeprecated script.source = true ∧
    x.span.endByte ≤ a.node.span.startByte ∧
    (∀ y ∈ outerNodes script.root, Establishes script.source y "infra" →
      bindingOffset y < x.span.startByte) ∧
    (a.scope.assignment? "infra").isSome = true := by
  have hrun : ((Script.read "flow.py" ("infra = g()\nmatch v:\n    case infra:\n        pass\n" ++
      "Deployment.build_from_flow(f, infrastructure=infra)\n").toList).bind fun s =>
        (find ⟨.offline, .standard⟩ s).map fun _ =>
          (outerNodes s.root).any fun x => x.kind == .casePattern && x.text s.source == "infra" &&
            ((Script.arrivals s).any fun a => a.isDeprecated s.source &&
              decide (x.span.endByte ≤ a.node.span.startByte) &&
              (a.scope.assignment? "infra").isSome) &&
            (outerNodes s.root).all fun y => (bindings s.source y).all fun b =>
              b.boundName != "infra" || decide (bindingOffset y < x.span.startByte)) =
      .ok true := by
    decide +kernel
  obtain ⟨script, f, hread, hfind, hg⟩ := exists_of_run hrun
  simp only [Bool.and_eq_true, List.any_eq_true, List.all_eq_true, Bool.or_eq_true, beq_iff_eq,
    bne_iff_ne, decide_eq_true_eq] at hg
  obtain ⟨x, hx, ⟨⟨hkind, htext⟩, a, ha, ⟨hcall, hfront⟩, hstale⟩, hlast⟩ := hg
  refine ⟨script, f, x, a, hread, hfind, hx, hkind, htext, ha, hcall, hfront, ?_, hstale⟩
  intro y hy hestablishes
  obtain ⟨b, hb, hbound, -⟩ := hestablishes.exists_binding
  exact (hlast y hy b hb).resolve_left (not_not_intro hbound)

end Redeploy.Migration
