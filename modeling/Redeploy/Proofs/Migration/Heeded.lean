import Redeploy.Proofs.Binding.History
import Redeploy.Proofs.Migration.Arrival

set_option autoImplicit false

/-! # The bindings that a walk heeds

A walk changes its scope at the nodes that bind names. `heeded` lists these bindings with their nodes,
and the scope with which the walk comes to a node is the replay of those that are made before it
(`exists_past`). They are made in the order of the script (`pairwise_heeded`), so what the scope knows
of a name at a node can be told from where the bindings of the name stand.

Which bindings are heeded is a matter of the tree alone: all those of nodes outside functions, classes,
lambdas and import statements, but for what stands within a call that is met (`heeds_or_below`). -/

namespace Redeploy.Migration

open Syntax (Tree Kind)

/-! ## Bindings of a node -/

/-- The bindings of the names that the target in a role binds, none of which has a value. -/
def forgottenIn (source : Text) (r : Syntax.Role) (t : Tree) : List Binding :=
  match t.child? r with
  | some target => (Script.boundNames source target).map .forgotten
  | none => []

/-- What a node itself binds, and not a node below it. -/
def bindings (source : Text) (t : Tree) : List Binding :=
  match t.kind with
  | .importStatement | .importFromStatement => (Script.importsOf source t).map .imported
  | .functionDefinition | .classDefinition | .lambda =>
    (t.child? .name).toList.map fun name => .forgotten (name.text source)
  | .forStatement | .augmentedAssignment => forgottenIn source .left t
  | .namedExpression => forgottenIn source .name t
  | .asPatternTarget => (Script.boundNames source t).map .forgotten
  | .assignment =>
    match Script.assignmentTarget? source t with
    | some (name, value) => [.assigned name (Script.lower source value)]
    | none => forgottenIn source .left t
  | _ => []

/-- Whether a node binds its names after the nodes below it. -/
def bindsLast : Kind → Bool
  | .assignment | .augmentedAssignment => true
  | _ => false

/-- Where a node binds its names. -/
def bindingOffset (t : Tree) : Nat :=
  if bindsLast t.kind then t.span.endByte else t.span.startByte

/-- A scope after some more bindings. -/
def recordAll (s : Scope) (bs : List Binding) : Scope :=
  bs.foldl Binding.record s

variable {source : Text}

@[simp] theorem recordAll_nil (s : Scope) : recordAll s [] = s := rfl

@[simp] theorem recordAll_append (s : Scope) (bs bs' : List Binding) :
    recordAll s (bs ++ bs') = recordAll (recordAll s bs) bs' :=
  List.foldl_append ..

theorem recordAll_forgotten (s : Scope) (names : List String) :
    recordAll s (names.map .forgotten) = s.forgetAll names :=
  List.foldl_map ..

theorem recordAll_imported (s : Scope) (imports : List Import) :
    recordAll s (imports.map .imported) = imports.foldl Scope.recordImport s :=
  List.foldl_map ..

theorem recordAll_forgottenIn (r : Syntax.Role) (t : Tree) (s : Scope) :
    recordAll s (forgottenIn source r t) = forgetTarget source r t s := by
  unfold forgottenIn forgetTarget
  cases t.child? r with
  | none => rfl
  | some target => exact recordAll_forgotten ..

theorem recordAll_definition (t : Tree) (s : Scope) :
    recordAll s ((t.child? .name).toList.map fun name => .forgotten (name.text source)) =
      forgetDefinition source t s := by
  unfold forgetDefinition
  cases t.child? .name <;> rfl

theorem bindImports_eq {t : Tree} (himport : isImport t.kind = true) (s : Scope) :
    bindImports source t s = recordAll s (bindings source t) := by
  unfold isImport at himport
  split at himport
  case h_1 h => simp only [bindings, h, bindImports, recordAll_imported]
  case h_2 h => simp only [bindings, h, bindImports, recordAll_imported]
  case h_3 => simp at himport

theorem bindBefore_eq {t : Tree} (himport : isImport t.kind = false) (s : Scope) :
    bindBefore source t s =
      recordAll s (if bindsLast t.kind then [] else bindings source t) := by
  unfold bindBefore bindings
  cases hkind : t.kind <;> simp only [hkind, isImport, reduceCtorEq] at himport <;>
    simp only [bindsLast, reduceIte, Bool.false_eq_true, recordAll_nil, recordAll_definition,
      recordAll_forgottenIn, recordAll_forgotten]

theorem bindsLast_eq_false {k : Kind} (h : k ≠ .assignment) (h' : k ≠ .augmentedAssignment) :
    bindsLast k = false := by
  unfold bindsLast
  split
  · exact absurd rfl h
  · exact absurd rfl h'
  · rfl

theorem bindAfter_eq (t : Tree) (s : Scope) :
    bindAfter source t s =
      recordAll s (if bindsLast t.kind then bindings source t else []) := by
  unfold bindAfter
  split
  case h_1 h =>
    simp only [h, bindsLast, reduceIte, bindings, bindAssignment]
    cases Script.assignmentTarget? source t with
    | some target => rfl
    | none => exact (recordAll_forgottenIn ..).symm
  case h_2 h =>
    simp only [h, bindsLast, reduceIte, bindings]
    exact (recordAll_forgottenIn ..).symm
  case h_3 h h' =>
    rw [bindsLast_eq_false h h', if_neg Bool.false_ne_true]
    rfl

/-! ## Bindings of a walk -/

/-- A binding, and the node that makes it. -/
structure Heeded where
  /-- The node. -/
  node : Tree
  /-- What it binds. -/
  binding : Binding

/-- Where the binding is made. -/
def Heeded.offset (e : Heeded) : Nat :=
  bindingOffset e.node

/-- What a node itself binds, each with the node. -/
def heededAt (source : Text) (t : Tree) : List Heeded :=
  (bindings source t).map (Heeded.mk t)

/-- The bindings that are made at and below a node that makes some of them itself. -/
def inTurn (source : Text) (t : Tree) (below : List Heeded) : List Heeded :=
  if bindsLast t.kind then below ++ heededAt source t else heededAt source t ++ below

mutual

/-- The bindings that a walk over a node heeds, in the order in which they are made. -/
def heeded (source : Text) (inner : Bool) : Tree → Scope → List Heeded
  | .node kind role span children, s =>
    let t : Tree := .node kind role span children
    if isDeprecatedCall source s t || inner then []
    else if isImport kind then heededAt source t
    else inTurn source t (heededAll source (opensScope kind) children (bindBefore source t s))

/-- The bindings that a walk over several nodes heeds. -/
def heededAll (source : Text) (inner : Bool) : List Tree → Scope → List Heeded
  | [], _ => []
  | t :: ts, s =>
    heeded source inner t s ++ heededAll source inner ts (walk source inner t s).2

end

/-- The bindings that a walk over a whole script heeds. -/
def heededIn (script : Script) : List Heeded :=
  heeded script.source false script.root .empty

/-- The scope after what has been heeded. -/
def afterHeeded (s : Scope) (es : List Heeded) : Scope :=
  recordAll s (es.map Heeded.binding)

@[simp] theorem afterHeeded_nil (s : Scope) : afterHeeded s [] = s := rfl

@[simp] theorem afterHeeded_append (s : Scope) (es es' : List Heeded) :
    afterHeeded s (es ++ es') = afterHeeded (afterHeeded s es) es' := by
  simp [afterHeeded]

@[simp] theorem afterHeeded_heededAt (s : Scope) (t : Tree) :
    afterHeeded s (heededAt source t) = recordAll s (bindings source t) := by
  simp [afterHeeded, heededAt, Function.comp_def]

theorem heeded_eq (source : Text) (inner : Bool) (t : Tree) (s : Scope) :
    heeded source inner t s =
      if isDeprecatedCall source s t || inner then []
      else if isImport t.kind then heededAt source t
      else inTurn source t
        (heededAll source (opensScope t.kind) t.children (bindBefore source t s)) := by
  cases t
  rfl

@[simp] theorem heeded_inner (t : Tree) (s : Scope) : heeded source true t s = [] := by
  rw [heeded_eq, Bool.or_true, if_pos rfl]

@[simp] theorem heededAll_inner (ts : List Tree) (s : Scope) : heededAll source true ts s = [] := by
  induction ts generalizing s with
  | nil => rfl
  | cons t ts ih => rw [heededAll, heeded_inner, ih, List.append_nil]

/-- The scope behind a node is the one in front of it after what is heeded in the node. -/
theorem scope_walk (inner : Bool) (t : Tree) (s : Scope) :
    (walk source inner t s).2 = afterHeeded s (heeded source inner t s) := by
  induction t using Tree.inductionOn generalizing inner s with
  | node k r sp cs ih =>
    have hall : ∀ (ts : List Tree), (∀ t ∈ ts, t ∈ cs) → ∀ inner s,
        (walkAll source inner ts s).2 = afterHeeded s (heededAll source inner ts s) := by
      intro ts
      induction ts with
      | nil =>
        intro _ inner s
        rfl
      | cons t ts ihts =>
        intro hsub inner s
        rw [walkAll, heededAll, afterHeeded_append, ← ih t (hsub t (List.mem_cons_self ..))]
        exact ihts (fun u hu => hsub u (List.mem_cons_of_mem t hu)) ..
    simp only [walk, heeded]
    by_cases hcall : isDeprecatedCall source s (.node k r sp cs) = true
    · simp [hcall]
    by_cases hinner : inner = true
    · simp [hcall, hinner, hall cs fun _ h => h]
    by_cases himport : isImport k = true
    · simp [hcall, hinner, himport, bindImports_eq (t := .node k r sp cs) himport]
    · have himport' : isImport (Syntax.Tree.node k r sp cs).kind = false :=
        Bool.eq_false_iff.2 himport
      simp only [hcall, hinner, himport, Bool.false_eq_true, if_false, Bool.or_self,
        hall cs fun _ h => h, bindAfter_eq, inTurn, bindBefore_eq himport']
      split <;> simp

/-! ## The order of bindings -/

theorem node_of_mem_heededAt {t : Tree} {e : Heeded} (he : e ∈ heededAt source t) :
    e.node = t ∧ e.binding ∈ bindings source t := by
  obtain ⟨b, hb, rfl⟩ := List.mem_map.1 he
  exact ⟨rfl, hb⟩

theorem mem_inTurn {t : Tree} {below : List Heeded} {e : Heeded} :
    e ∈ inTurn source t below ↔ e ∈ heededAt source t ∨ e ∈ below := by
  unfold inTurn
  split <;> simp [or_comm]

theorem exists_of_mem_heededAll {inner : Bool} {ts : List Tree} {s : Scope} {e : Heeded}
    (he : e ∈ heededAll source inner ts s) : ∃ t ∈ ts, ∃ s', e ∈ heeded source inner t s' := by
  induction ts generalizing s with
  | nil => simp [heededAll] at he
  | cons t ts ih =>
    rw [heededAll, List.mem_append] at he
    rcases he with he | he
    · exact ⟨t, List.mem_cons_self .., s, he⟩
    · obtain ⟨u, hu, h⟩ := ih he
      exact ⟨u, List.mem_cons_of_mem t hu, h⟩

/-- What is heeded in a walk over a node is bound at the node, or heeded in a walk over a child. -/
theorem mem_heeded {inner : Bool} {t : Tree} {s : Scope} {e : Heeded}
    (he : e ∈ heeded source inner t s) : e ∈ heededAt source t ∨
      opensScope t.kind = false ∧ isImport t.kind = false ∧
        ∃ c ∈ t.children, ∃ s', e ∈ heeded source false c s' := by
  rw [heeded_eq] at he
  split at he
  · simp at he
  · split at he
    · exact .inl he
    · next himport =>
      refine (mem_inTurn.1 he).imp_right fun he => ?_
      cases hscope : opensScope t.kind with
      | true => simp [hscope] at he
      | false =>
        rw [hscope] at he
        exact ⟨rfl, Bool.eq_false_iff.2 himport, exists_of_mem_heededAll he⟩

theorem bindingOffset_bounds {t : Tree} (hspan : t.span.startByte ≤ t.span.endByte) :
    t.span.startByte ≤ bindingOffset t ∧ bindingOffset t ≤ t.span.endByte := by
  unfold bindingOffset
  split <;> omega

/-- What is heeded in a node is bound within the node. -/
theorem offset_bounds_of_mem_heeded {inner : Bool} {t : Tree} {s : Scope} {e : Heeded}
    (hnested : t.Nested) (hspan : t.span.startByte ≤ t.span.endByte)
    (he : e ∈ heeded source inner t s) : t.span.startByte ≤ e.offset ∧
      e.offset ≤ t.span.endByte := by
  induction t using Tree.inductionOn generalizing inner s with
  | node k r sp cs ih =>
    rcases mem_heeded he with he | ⟨-, -, c, hc, s', he⟩
    · rw [Heeded.offset, (node_of_mem_heededAt he).1]
      exact bindingOffset_bounds hspan
    · obtain ⟨horder, hchildren⟩ := Tree.nested_iff.1 hnested
      have hbounds := horder.bounds hc
      have := ih c hc (hchildren c hc) hbounds.2.1 he
      omega

theorem pairwise_heededAll_of_forall {inner : Bool} {m n : Nat} {ts : List Tree} {s : Scope}
    (horder : Tree.InOrder m n ts) (hnested : ∀ t ∈ ts, t.Nested)
    (h : ∀ t ∈ ts, ∀ s, (heeded source inner t s).Pairwise fun e e' =>
      e.offset ≤ e'.offset) :
    (heededAll source inner ts s).Pairwise fun e e' =>
      e.offset ≤ e'.offset := by
  induction ts generalizing m s with
  | nil => exact List.Pairwise.nil
  | cons t ts ih =>
    obtain ⟨-, hspan, hrest⟩ := horder
    rw [heededAll, List.pairwise_append]
    refine ⟨h t (List.mem_cons_self ..) s,
      ih hrest (fun u hu => hnested u (List.mem_cons_of_mem t hu))
        fun u hu => h u (List.mem_cons_of_mem t hu), fun e he e' he' => ?_⟩
    obtain ⟨u, hu, s', he'⟩ := exists_of_mem_heededAll he'
    have hu' := hrest.bounds hu
    have := offset_bounds_of_mem_heeded (hnested t (List.mem_cons_self ..)) hspan he
    have := offset_bounds_of_mem_heeded (hnested u (List.mem_cons_of_mem t hu)) hu'.2.1 he'
    omega

/-- Bindings are heeded in the order in which they stand in the script. -/
theorem pairwise_heeded {inner : Bool} {t : Tree} {s : Scope} (hnested : t.Nested)
    (hspan : t.span.startByte ≤ t.span.endByte) :
    (heeded source inner t s).Pairwise fun e e' =>
      e.offset ≤ e'.offset := by
  induction t using Tree.inductionOn generalizing inner s with
  | node k r sp cs ih =>
    obtain ⟨horder, hchildren⟩ := Tree.nested_iff.1 hnested
    have hat : (heededAt source (.node k r sp cs)).Pairwise fun e e' =>
        e.offset ≤ e'.offset :=
      List.pairwise_of_forall_mem_list fun e he e' he' => Nat.le_of_eq <| by
        rw [Heeded.offset, Heeded.offset, (node_of_mem_heededAt he).1, (node_of_mem_heededAt he').1]
    rw [heeded_eq]
    split
    · exact List.Pairwise.nil
    split
    · exact hat
    have hbelow : ∀ {inner' s'}, (heededAll source inner' cs s').Pairwise fun e e' =>
        e.offset ≤ e'.offset := fun {inner' s'} =>
      pairwise_heededAll_of_forall horder hchildren fun c hc s'' =>
        ih c hc (hchildren c hc) (horder.bounds hc).2.1
    have hbounds : ∀ {inner' s'}, ∀ e ∈ heededAll source inner' cs s',
        sp.startByte ≤ e.offset ∧ e.offset ≤ sp.endByte := by
      intro inner' s' e he
      obtain ⟨c, hc, s'', he⟩ := exists_of_mem_heededAll he
      have hc' : sp.startByte ≤ _ ∧ _ ∧ _ ≤ sp.endByte := horder.bounds hc
      have := offset_bounds_of_mem_heeded (hchildren c hc) hc'.2.1 he
      omega
    unfold inTurn
    split
    · next hlast =>
      refine List.pairwise_append.2 ⟨hbelow, hat, fun e he e' he' => ?_⟩
      rw [Heeded.offset.eq_1 e', (node_of_mem_heededAt he').1, bindingOffset, if_pos hlast]
      exact (hbounds e he).2
    · next hfirst =>
      refine List.pairwise_append.2 ⟨hat, hbelow, fun e he e' he' => ?_⟩
      rw [Heeded.offset, (node_of_mem_heededAt he).1, bindingOffset, if_neg hfirst]
      exact (hbounds e' he').1

/-! ## What is heeded before the walk comes to a node -/

/-- The bindings that a walk heeds are cut in two where it comes to a node: those that have led to the
    scope there, which stand in front of the node, and the others. -/
structure Cut (source : Text) (s : Scope) (es : List Heeded) (a : Arrival)
    (past future : List Heeded) : Prop where
  /-- These are all bindings. -/
  eq : es = past ++ future
  /-- The scope is that after the first ones. -/
  scope : a.scope = afterHeeded s past
  /-- The first ones are made in front of the node. -/
  before : ∀ e ∈ past, e.offset ≤ a.node.span.startByte
  /-- The others are made within the node or behind it. -/
  after : ∀ e ∈ future, a.node.span.startByte ≤ e.offset
  /-- None is made within a call that is met. -/
  behind : a.isDeprecated source = true → ∀ e ∈ future, a.node.span.endByte ≤ e.offset

theorem Cut.append_left {s : Scope} {es es' : List Heeded} {a : Arrival} {past future : List Heeded}
    (h : Cut source (afterHeeded s es') es a past future)
    (hbefore : ∀ e ∈ es', e.offset ≤ a.node.span.startByte) :
    Cut source s (es' ++ es) a (es' ++ past) future := by
  refine ⟨?_, ?_, ?_, h.after, h.behind⟩
  · rw [h.eq, List.append_assoc]
  · rw [h.scope, afterHeeded_append]
  · intro e he
    exact (List.mem_append.1 he).elim (hbefore e) (h.before e)

theorem Cut.append_right {s : Scope} {es es' : List Heeded} {a : Arrival} {past future : List Heeded}
    (h : Cut source s es a past future)
    (hspan : a.node.span.startByte ≤ a.node.span.endByte)
    (hafter : ∀ e ∈ es', a.node.span.endByte ≤ e.offset) :
    Cut source s (es ++ es') a past (future ++ es') := by
  refine ⟨?_, h.scope, h.before, ?_, ?_⟩
  · rw [h.eq, List.append_assoc]
  · intro e he
    exact (List.mem_append.1 he).elim (h.after e) fun he => Nat.le_trans hspan (hafter e he)
  · intro hcall e he
    exact (List.mem_append.1 he).elim (h.behind hcall e) (hafter e)

theorem exists_cutAll_of_forall {inner : Bool} {m n : Nat} {ts : List Tree} {s : Scope} {a : Arrival}
    (horder : Tree.InOrder m n ts) (hnested : ∀ t ∈ ts, t.Nested)
    (h : ∀ t ∈ ts, ∀ s, a ∈ arrivals source inner t s → ∃ past future,
      Cut source s (heeded source inner t s) a past future)
    (ha : a ∈ arrivalsAll source inner ts s) :
    ∃ past future, Cut source s (heededAll source inner ts s) a past future := by
  induction ts generalizing m s with
  | nil => simp [arrivalsAll] at ha
  | cons t ts ih =>
    obtain ⟨-, hspan, hrest⟩ := horder
    have hnested' := fun u hu => hnested u (List.mem_cons_of_mem t hu)
    have ht := hnested t (List.mem_cons_self ..)
    rw [arrivalsAll, List.mem_append] at ha
    rw [heededAll]
    rcases ha with ha | ha
    · obtain ⟨past, future, hcut⟩ := h t (List.mem_cons_self ..) s ha
      have hnode := ht.bounds hspan (node_mem_of_mem_arrivals ha)
      refine ⟨past, _, hcut.append_right hnode.2.1 fun e he => ?_⟩
      obtain ⟨u, hu, s', he⟩ := exists_of_mem_heededAll he
      have hu' := hrest.bounds hu
      have := offset_bounds_of_mem_heeded (hnested' u hu) hu'.2.1 he
      omega
    · obtain ⟨u, hu, s', ha', -⟩ := exists_of_mem_arrivalsAll ha
      have hu' := hrest.bounds hu
      have hnode := (hnested' u hu).bounds hu'.2.1 (node_mem_of_mem_arrivals ha')
      obtain ⟨past, future, hcut⟩ := ih hrest hnested'
        (fun u hu => h u (List.mem_cons_of_mem t hu)) ha
      rw [scope_walk] at hcut ⊢
      refine ⟨_, future, hcut.append_left fun e he => ?_⟩
      have := offset_bounds_of_mem_heeded ht hspan he
      omega

/-- The scope with which a walk comes to a node is the one after what is heeded in front of it. -/
theorem exists_cut {inner : Bool} {t : Tree} {s : Scope} {a : Arrival} (hnested : t.Nested)
    (hspan : t.span.startByte ≤ t.span.endByte) (ha : a ∈ arrivals source inner t s) :
    ∃ past future, Cut source s (heeded source inner t s) a past future := by
  induction t using Tree.inductionOn generalizing inner s with
  | node k r sp cs ih =>
    obtain ⟨horder, hchildren⟩ := Tree.nested_iff.1 hnested
    have hbelow : ∀ {inner' s'}, a ∈ arrivalsAll source inner' cs s' →
        ∃ past future, Cut source s' (heededAll source inner' cs s') a past future :=
      fun {inner' s'} => exists_cutAll_of_forall horder hchildren fun c hc s'' ha =>
        ih c hc (hchildren c hc) (horder.bounds hc).2.1 ha
    have hnode := hnested.bounds hspan (node_mem_of_mem_arrivals ha)
    rw [arrivals_eq, List.mem_cons] at ha
    rcases ha with rfl | ha
    · refine ⟨[], _, (List.nil_append _).symm, rfl, by simp, fun e he => ?_, fun hcall e he => ?_⟩
      · exact (offset_bounds_of_mem_heeded hnested hspan he).1
      · rw [heeded_eq, show isDeprecatedCall source s _ = true from hcall, Bool.true_or,
          if_pos rfl] at he
        simp at he
    split at ha
    · simp at ha
    next hcall =>
    split at ha
    · next hinner =>
      obtain ⟨past, future, hcut⟩ := hbelow ha
      rw [heededAll_inner] at hcut
      exact ⟨past, future, by rwa [hinner, heeded_inner]⟩
    next hinner =>
    split at ha
    · simp at ha
    next himport =>
    obtain ⟨past, future, hcut⟩ := hbelow ha
    rw [bindBefore_eq (Bool.eq_false_iff.2 himport)] at hcut
    rw [heeded_eq, if_neg (by simp [hcall, hinner]), if_neg himport, inTurn,
      bindBefore_eq (Bool.eq_false_iff.2 himport)]
    split at hcut
    · next hlast =>
      rw [if_pos hlast, if_pos hlast]
      refine ⟨past, _, hcut.append_right hnode.2.1 fun e he => ?_⟩
      rw [Heeded.offset, (node_of_mem_heededAt he).1, bindingOffset, if_pos hlast]
      exact hnode.2.2
    · next hfirst =>
      rw [if_neg hfirst, if_neg hfirst]
      rw [← afterHeeded_heededAt] at hcut ⊢
      refine ⟨_, future, (hcut.append_left fun e he => ?_)⟩
      rw [Heeded.offset, (node_of_mem_heededAt he).1, bindingOffset, if_neg hfirst]
      exact hnode.1

/-- The scope with which a walk over a script comes to a node is the replay of what is heeded in front
    of the node. -/
theorem exists_past {script : Script} {a : Arrival} (hnested : script.root.Nested)
    (ha : a ∈ Script.arrivals script) :
    ∃ past future, Cut script.source .empty (heededIn script) a past future ∧
      a.scope = Binding.replay (past.map Heeded.binding) := by
  obtain ⟨past, future, hcut⟩ := exists_cut hnested (Tree.nested_iff.1 hnested).1.le ha
  exact ⟨past, future, hcut, hcut.scope⟩

/-! ## Which bindings are heeded -/

mutual

/-- The nodes of a tree outside functions, classes, lambdas and import statements. -/
def outerNodes : Tree → List Tree
  | .node kind role span children =>
    .node kind role span children ::
      if opensScope kind || isImport kind then [] else outerNodesAll children

/-- The nodes of several trees outside functions, classes, lambdas and import statements. -/
def outerNodesAll : List Tree → List Tree
  | [] => []
  | t :: ts => outerNodes t ++ outerNodesAll ts

end

theorem mem_outerNodesAll {x : Tree} {ts : List Tree} :
    x ∈ outerNodesAll ts ↔ ∃ t ∈ ts, x ∈ outerNodes t := by
  induction ts with
  | nil => simp [outerNodesAll]
  | cons t ts ih => simp [outerNodesAll, ih]

theorem mem_outerNodes {x t : Tree} : x ∈ outerNodes t ↔ x = t ∨
    opensScope t.kind = false ∧ isImport t.kind = false ∧ ∃ c ∈ t.children, x ∈ outerNodes c := by
  obtain ⟨k, r, sp, cs⟩ := t
  rw [outerNodes, List.mem_cons]
  show _ ↔ _ ∨ opensScope k = false ∧ isImport k = false ∧ ∃ c ∈ cs, x ∈ outerNodes c
  cases opensScope k <;> cases isImport k <;> simp [mem_outerNodesAll]

theorem mem_nodes_of_mem_outerNodes {x t : Tree} (hx : x ∈ outerNodes t) : x ∈ t.nodes := by
  induction t using Tree.inductionOn with
  | node k r sp cs ih =>
    rcases mem_outerNodes.1 hx with rfl | ⟨-, -, c, hc, hx⟩
    · exact Tree.self_mem_nodes _
    · exact Tree.mem_nodes.2 (.inr ⟨c, hc, ih c hc hx⟩)

/-- What is heeded are bindings of outer nodes. -/
theorem mem_outerNodes_of_mem_heeded {inner : Bool} {t : Tree} {s : Scope} {e : Heeded}
    (he : e ∈ heeded source inner t s) :
    e.node ∈ outerNodes t ∧ e.binding ∈ bindings source e.node := by
  induction t using Tree.inductionOn generalizing inner s with
  | node k r sp cs ih =>
    rcases mem_heeded he with he | ⟨hscope, himport, c, hc, s', he⟩
    · obtain ⟨heq, hb⟩ := node_of_mem_heededAt he
      rw [heq]
      exact ⟨mem_outerNodes.2 (.inl rfl), hb⟩
    · obtain ⟨hx, hb⟩ := ih c hc he
      exact ⟨mem_outerNodes.2 (.inr ⟨hscope, himport, c, hc, hx⟩), hb⟩

theorem exists_heeded_subset (source : Text) (inner : Bool) {ts : List Tree} (s : Scope) {t : Tree} (ht : t ∈ ts) :
    ∃ s', (∀ e ∈ heeded source inner t s', e ∈ heededAll source inner ts s) ∧
      ∀ a ∈ arrivals source inner t s', a ∈ arrivalsAll source inner ts s := by
  induction ts generalizing s with
  | nil => simp at ht
  | cons u ts ih =>
    rcases List.mem_cons.1 ht with rfl | ht
    · exact ⟨s, fun e he => List.mem_append_left _ he, fun a ha => List.mem_append_left _ ha⟩
    · obtain ⟨s', hheeded, harrivals⟩ := ih (walk source inner u s).2 ht
      exact ⟨s', fun e he => List.mem_append_right _ (hheeded e he),
        fun a ha => List.mem_append_right _ (harrivals a ha)⟩

/-- The bindings of an outer node are heeded, or it stands within a call that is met. -/
theorem heeds_or_below (source : Text) {t x : Tree} (s : Scope) (hx : x ∈ outerNodes t) :
    (∀ b ∈ bindings source x, ⟨x, b⟩ ∈ heeded source false t s) ∨
      ∃ a ∈ arrivals source false t s, a.isDeprecated source = true ∧ IsBelow x a.node := by
  induction t using Tree.inductionOn generalizing s with
  | node k r sp cs ih =>
    by_cases hcall : isDeprecatedCall source s (.node k r sp cs) = true
    · rcases mem_outerNodes.1 hx with rfl | ⟨-, -, c, hc, hx⟩
      · have hkind : k = .call := kind_of_isDeprecatedCall hcall
        exact .inl (by simp [bindings, Tree.kind, hkind])
      · exact .inr ⟨_, self_mem_arrivals .., hcall, c, hc, mem_nodes_of_mem_outerNodes hx⟩
    rw [heeded_eq, arrivals_eq, if_neg hcall, if_neg (by simp [hcall]), if_neg Bool.false_ne_true]
    rcases mem_outerNodes.1 hx with rfl | ⟨hscope, himport, c, hc, hx⟩
    · refine .inl fun b hb => ?_
      have hat : (⟨_, b⟩ : Heeded) ∈ heededAt source (.node k r sp cs) := List.mem_map_of_mem hb
      split
      · exact hat
      · exact mem_inTurn.2 (.inl hat)
    · rw [if_neg (by simp [himport]), if_neg (by simp [himport]), hscope]
      obtain ⟨s', hheeded, harrivals⟩ := exists_heeded_subset source false
        (bindBefore source (.node k r sp cs) s) hc
      refine (ih c hc s' hx).imp (fun h b hb => ?_) ?_
      · exact mem_inTurn.2 (.inr (hheeded _ (h b hb)))
      · rintro ⟨a, ha, h⟩
        exact ⟨a, List.mem_cons_of_mem _ (harrivals a ha), h⟩

end Redeploy.Migration
