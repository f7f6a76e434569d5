import Redeploy.Proofs.Migration.Reference
import Redeploy.Proofs.Syntax.Targets
import Redeploy.Script.Names
import Redeploy.Value

set_option autoImplicit false

/-! # Assigning to a target

What an assignment does to the names of a script, told as a run of it: a name takes the value, a place
within a value takes it and binds no name, and several targets share the items of the value out among
themselves (`Assigns`). Whatever the values are, the names that are bound are the ones listed for the
target, in the order in which they are bound (`Assigns.map_fst`); and to every target whose stars can be
told apart a value can be assigned (`exists_assigns`). Told of the tree, the listed names are the
identifiers that no attribute and no subscript lies above, in the order of the script
(`exists_listsNodes`). `boundNames_of_isTarget` says all of this of one target. A name is what its
identifier says. -/

namespace Redeploy.Migration

open Syntax (Tree Kind parse nested_of_parse children_of_identifier isPlace isStarred isGroup encloses
  isStarred_of_isPlace of_isStarred of_isGroup of_encloses isTarget targetForm_of_isTarget
  isTarget_of_left)

/-! ## Runs of an assignment -/

/-- Values that can be unpacked, and lists of values, which are unpacked to what they have been made
    of. -/
structure Unpacking (V : Type) where
  /-- The items of a value, if it has items. -/
  items? : V → Option (List V)
  /-- The list of some values. -/
  listOf : List V → V
  /-- The items of a list are the values that it has been made of. -/
  items?_listOf : ∀ vs, items? (listOf vs) = some vs

section

variable {V : Type} (u : Unpacking V) (source : Text)

mutual

/-- What names are bound to which values, in order, when a value is assigned to a target. -/
inductive Assigns : Tree → V → List (String × V) → Prop
  /-- A name takes the value. -/
  | name {t : Tree} {v : V} (hkind : t.kind = .identifier) : Assigns t v [(t.text source, v)]
  /-- So does a name that is no node of its own. -/
  | bare {t : Tree} {v : V} (hkind : t.kind = .asPatternTarget) (hleaf : t.children = []) :
    Assigns t v [(t.text source, v)]
  /-- The value goes to a place within another value. -/
  | place {t : Tree} {v : V} (hkind : isPlace t.kind = true) : Assigns t v []
  /-- The value goes to the target within. -/
  | enclosed {t c : Tree} {v : V} {bs : List (String × V)} (hkind : encloses t.kind = true)
    (hc : t.children = [c]) (h : Assigns c v bs) : Assigns t v bs
  /-- The targets of a group share the items of the value. -/
  | group {t : Tree} {v : V} {vs : List V} {bs : List (String × V)} (hkind : isGroup t.kind = true)
    (hitems : u.items? v = some vs) (h : AssignsAll t.children vs bs) : Assigns t v bs

/-- What names are bound when items are shared out among targets in a row. -/
inductive AssignsAll : List Tree → List V → List (String × V) → Prop
  /-- No target is left, and no item. -/
  | nil : AssignsAll [] [] []
  /-- A target takes one item. -/
  | cons {t : Tree} {ts : List Tree} {v : V} {vs : List V} {bs bs' : List (String × V)}
    (h : Assigns t v bs) (hs : AssignsAll ts vs bs') : AssignsAll (t :: ts) (v :: vs) (bs ++ bs')
  /-- The only starred target takes the list of any number of items. -/
  | starred {t c : Tree} {ts : List Tree} {ws vs : List V} {bs bs' : List (String × V)}
    (hkind : isStarred t.kind = true) (hc : t.children = [c]) (h : Assigns c (u.listOf ws) bs)
    (hone : ∀ t' ∈ ts, isStarred t'.kind = false) (hs : AssignsAll ts vs bs') :
    AssignsAll (t :: ts) (ws ++ vs) (bs ++ bs')

end

end

/-! ## The names that are listed -/

section

variable {source : Text} {t : Tree} {ts : List Tree}

theorem boundNames_of_name (hkind : t.kind = .identifier) :
    Script.boundNames source t = [t.text source] := by
  obtain ⟨k, r, s, cs⟩ := t
  obtain rfl : k = .identifier := hkind
  rw [Script.boundNames]

theorem boundNames_of_place (hkind : isPlace t.kind = true) : Script.boundNames source t = [] := by
  obtain ⟨k, r, s, cs⟩ := t
  have hkinds : k = .attributeAccess ∨ k = .subscript := by simpa [isPlace, Tree.kind] using hkind
  rcases hkinds with rfl | rfl <;> rw [Script.boundNames]

theorem boundNames_of_bare (hkind : t.kind = .asPatternTarget) (hleaf : t.children = []) :
    Script.boundNames source t = [t.text source] := by
  obtain ⟨k, r, s, cs⟩ := t
  obtain rfl : k = .asPatternTarget := hkind
  obtain rfl : cs = [] := hleaf
  rw [Script.boundNames]
  rfl

/-- A node that stands for other targets lists their names. -/
theorem boundNames_of_children (hkind : isGroup t.kind = true ∨ isStarred t.kind = true ∨
    (encloses t.kind = true ∧ t.children ≠ [])) :
    Script.boundNames source t = Script.boundNamesAll source t.children := by
  obtain ⟨k, r, s, cs⟩ := t
  simp only [Tree.kind, Tree.children] at hkind ⊢
  unfold Script.boundNames
  split
  · simp [isGroup, isStarred, encloses] at hkind
  · simp [isGroup, isStarred, encloses] at hkind
  · simp [isGroup, isStarred, encloses] at hkind
  · rw [if_neg]
    simpa [isGroup, isStarred, encloses] using hkind
  · rfl

theorem boundNamesAll_singleton (c : Tree) :
    Script.boundNamesAll source [c] = Script.boundNames source c := by
  rw [Script.boundNamesAll, Script.boundNamesAll, List.append_nil]

theorem boundNames_of_only_child {c : Tree} (hkind : isStarred t.kind = true ∨ encloses t.kind = true)
    (hc : t.children = [c]) : Script.boundNames source t = Script.boundNames source c := by
  have hne : t.children ≠ [] := by rw [hc]; exact List.cons_ne_nil c []
  rw [boundNames_of_children (.inr (hkind.imp_right fun h => ⟨h, hne⟩)), hc, boundNamesAll_singleton]

end

/-! ## What a run binds -/

section

variable {V : Type} {u : Unpacking V} {source : Text} {t : Tree} {ts : List Tree}

/-- What a run for a target binds, and for a starred target a run for what is starred, has the names
    that are listed for it. -/
structure BindsListed (u : Unpacking V) (source : Text) (t : Tree) : Prop where
  self : ∀ v bs, Assigns u source t v bs → bs.map Prod.fst = Script.boundNames source t
  starred : ∀ c, isStarred t.kind = true → t.children = [c] → ∀ v bs, Assigns u source c v bs →
    bs.map Prod.fst = Script.boundNames source t

theorem AssignsAll.map_fst (hts : ∀ t ∈ ts, BindsListed u source t) {vs : List V}
    {bs : List (String × V)} (h : AssignsAll u source ts vs bs) :
    bs.map Prod.fst = Script.boundNamesAll source ts := by
  induction ts generalizing vs bs with
  | nil =>
    cases h
    rfl
  | cons t ts ih =>
    have hrest := fun t' ht' => hts t' (List.mem_cons_of_mem t ht')
    have ht := hts t (List.mem_cons_self ..)
    cases h with
    | cons h hs => rw [List.map_append, ht.self _ _ h, ih hrest hs, Script.boundNamesAll]
    | starred hkind hc h hone hs =>
      rw [List.map_append, ht.starred _ hkind hc _ _ h, ih hrest hs, Script.boundNamesAll]

theorem bindsListed (u : Unpacking V) (source : Text) (t : Tree) : BindsListed u source t := by
  induction t using Tree.inductionOn with
  | node k r s cs ih =>
    generalize ht : Syntax.Tree.node k r s cs = t
    have hchildren : ∀ c ∈ t.children, BindsListed u source c := by
      rw [← ht]
      exact ih
    have honly : ∀ {c}, t.children = [c] → BindsListed u source c := by
      intro c hc
      exact hchildren c (by rw [hc]; exact List.mem_singleton_self c)
    refine ⟨fun v bs h => ?_, fun c hkind hc v bs h => ?_⟩
    · cases h with
      | name hkind =>
        rw [boundNames_of_name hkind]
        rfl
      | bare hkind hleaf =>
        rw [boundNames_of_bare hkind hleaf]
        rfl
      | place hkind =>
        rw [boundNames_of_place hkind]
        rfl
      | enclosed hkind hc h =>
        rw [boundNames_of_only_child (.inr hkind) hc]
        exact (honly hc).self v bs h
      | group hkind hitems h =>
        rw [boundNames_of_children (.inl hkind)]
        exact h.map_fst hchildren
    · rw [boundNames_of_only_child (.inl hkind) hc]
      exact (honly hc).self v bs h

/-- A run for a target binds the names that are listed for it, in order. -/
theorem Assigns.map_fst {v : V} {bs : List (String × V)} (h : Assigns u source t v bs) :
    bs.map Prod.fst = Script.boundNames source t :=
  (bindsListed u source t).self v bs h

/-! ## Targets that can be assigned to -/

mutual

/-- Whether stars stand in groups alone, and not two of them in one group. What is within a place of a
    value does not matter. -/
def starsFit : Tree → Bool
  | .node k _ _ cs =>
    isPlace k ||
      (decide (cs.countP (fun c => isStarred c.kind) ≤ if isGroup k then 1 else 0) && starsFitAll cs)

/-- Whether they do in several trees. -/
def starsFitAll : List Tree → Bool
  | [] => true
  | t :: ts => starsFit t && starsFitAll ts

end

theorem starsFitAll_iff : starsFitAll ts = true ↔ ∀ t ∈ ts, starsFit t = true := by
  induction ts with
  | nil => simp [starsFitAll]
  | cons t ts ih => simp [starsFitAll, ih]

theorem starsFit_iff (hplace : isPlace t.kind = false) : starsFit t = true ↔
    t.children.countP (fun c => isStarred c.kind) ≤ (if isGroup t.kind then 1 else 0) ∧
      ∀ c ∈ t.children, starsFit c = true := by
  obtain ⟨k, r, s, cs⟩ := t
  rw [starsFit, show isPlace k = false from hplace, Bool.false_or, Bool.and_eq_true,
    decide_eq_true_iff, starsFitAll_iff]
  rfl

/-- There is a list to be assigned to a target, or to what is starred if the target is. -/
structure Takes (u : Unpacking V) (source : Text) (t : Tree) : Prop where
  self : isStarred t.kind = false → ∃ vs bs, Assigns u source t (u.listOf vs) bs
  starred : isStarred t.kind = true → ∃ c, t.children = [c] ∧
    ∃ vs bs, Assigns u source c (u.listOf vs) bs

theorem exists_assignsAll (hts : ∀ t ∈ ts, Takes u source t)
    (hone : ts.countP (fun t => isStarred t.kind) ≤ 1) :
    ∃ vs bs, AssignsAll u source ts vs bs := by
  induction ts with
  | nil => exact ⟨[], [], .nil⟩
  | cons t ts ih =>
    have ht := hts t (List.mem_cons_self ..)
    rw [List.countP_cons] at hone
    obtain ⟨vs, bs, hs⟩ := ih (fun t' ht' => hts t' (List.mem_cons_of_mem t ht')) (by omega)
    cases hstarred : isStarred t.kind with
    | false =>
      obtain ⟨ws, bs', h⟩ := ht.self hstarred
      exact ⟨_, _, .cons h hs⟩
    | true =>
      obtain ⟨c, hc, ws, bs', h⟩ := ht.starred hstarred
      have hnone : ts.countP (fun t => isStarred t.kind) = 0 := by
        rw [hstarred, if_pos rfl] at hone
        omega
      refine ⟨_, _, .starred hstarred hc h (fun t' ht' => ?_) hs⟩
      exact Bool.eq_false_iff.2 (List.countP_eq_zero.1 hnone t' ht')

theorem takes_of_starsFit (u : Unpacking V) (source : Text) (htarget : isTarget t = true)
    (hstars : starsFit t = true) : Takes u source t := by
  induction t using Tree.inductionOn with
  | node k r s cs ih =>
    generalize ht : Syntax.Tree.node k r s cs = t at htarget hstars
    have hchild : ∀ c ∈ t.children, isTarget c = true → starsFit c = true → Takes u source c := by
      rw [← ht]
      exact ih
    have hrun : (∃ vs bs, Assigns u source t (u.listOf vs) bs) → isStarred t.kind = false →
        Takes u source t := by
      intro h hstarred
      exact ⟨fun _ => h, fun htrue => absurd htrue (by simp [hstarred])⟩
    -- outside of a group there is no star, so the only child takes a list itself
    have honly : ∀ c, isPlace t.kind = false → isGroup t.kind = false → t.children = [c] →
        isTarget c = true → ∃ vs bs, Assigns u source c (u.listOf vs) bs := by
      intro c hplace hgroup hc hctarget
      obtain ⟨hcount, hall⟩ := (starsFit_iff hplace).1 hstars
      have hmem : c ∈ t.children := by rw [hc]; exact List.mem_singleton_self c
      rw [hgroup, hc] at hcount
      exact (hchild c hmem hctarget (hall c hmem)).self (by simpa using hcount)
    cases targetForm_of_isTarget htarget with
    | name hkind => exact hrun ⟨[], _, .name hkind⟩ (by rw [hkind]; rfl)
    | bare hkind hleaf => exact hrun ⟨[], _, .bare hkind hleaf⟩ (by rw [hkind]; rfl)
    | place hkind => exact hrun ⟨[], _, .place hkind⟩ (isStarred_of_isPlace hkind)
    | @starred c hkind hc hctarget =>
      obtain ⟨hplace, hgroup⟩ := of_isStarred hkind
      refine ⟨fun hfalse => absurd hkind (by simp [hfalse]), fun _ => ⟨c, hc, ?_⟩⟩
      exact honly c hplace hgroup hc hctarget
    | @enclosed c hkind hsingle hc hctarget =>
      obtain ⟨hplace, hstarred⟩ := of_encloses hkind
      obtain ⟨vs, bs, h⟩ := honly c hplace hsingle hc hctarget
      exact hrun ⟨vs, bs, .enclosed hkind hc h⟩ hstarred
    | group hkind hall =>
      obtain ⟨hplace, hstarred⟩ := of_isGroup hkind
      obtain ⟨hcount, hfit⟩ := (starsFit_iff hplace).1 hstars
      rw [hkind, if_pos rfl] at hcount
      obtain ⟨vs, bs, h⟩ := exists_assignsAll
        (fun c hc => hchild c hc (hall c hc) (hfit c hc)) hcount
      exact hrun ⟨vs, bs, .group hkind (u.items?_listOf vs) h⟩ hstarred

/-- To a target whose stars can be told apart, a list of values can be assigned. -/
theorem exists_assigns (u : Unpacking V) (source : Text) (htarget : isTarget t = true)
    (hstars : starsFit t = true) (hstarred : isStarred t.kind = false) :
    ∃ vs bs, Assigns u source t (u.listOf vs) bs :=
  (takes_of_starsFit u source htarget hstars).self hstarred

end

/-! ## The names in the tree -/

/-- A node is a name to be bound. -/
def IsTargetName (x : Tree) : Prop :=
  x.kind = .identifier ∨ (x.kind = .asPatternTarget ∧ x.children = [])

/-- A node lies in a tree, and no place within a value lies above it. -/
def IsReached (t x : Tree) : Prop :=
  ∃ ys, t.Path ys x ∧ ∀ y ∈ ys, isPlace y.kind = false

section

variable {source : Text} {t x : Tree} {ts : List Tree}

theorem isReached_iff : IsReached t x ↔
    isPlace t.kind = false ∧ (x = t ∨ ∃ c ∈ t.children, IsReached c x) := by
  constructor
  · rintro ⟨ys, hpath, hys⟩
    refine ⟨hys t hpath.root_mem, ?_⟩
    cases hpath with
    | here => exact .inl rfl
    | @down _ c _ ys hc hpath =>
      exact .inr ⟨c, hc, ys, hpath, fun y hy => hys y (List.mem_cons_of_mem _ hy)⟩
  · rintro ⟨hplace, rfl | ⟨c, hc, ys, hpath, hys⟩⟩
    · exact ⟨[x], .here x, by simpa using hplace⟩
    · refine ⟨t :: ys, .down hc hpath, fun y hy => ?_⟩
      rcases List.mem_cons.1 hy with rfl | hy
      · exact hplace
      · exact hys y hy

theorem IsReached.mem_nodes (h : IsReached t x) : x ∈ t.nodes := by
  obtain ⟨ys, hpath, -⟩ := h
  exact hpath.mem_nodes hpath.root_mem

/-- The names that are listed for some trees are said by nodes that stand in the order of the script. -/
structure ListsNodes (source : Text) (names : List String) (p : Tree → Prop) (xs : List Tree) :
    Prop where
  names_eq : names = xs.map (Tree.text source)
  mem_iff : ∀ x, x ∈ xs ↔ IsTargetName x ∧ p x
  inOrder : xs.Pairwise fun x y => x.span.endByte ≤ y.span.startByte

theorem exists_listsNodes_all {m n : Nat} (horder : Tree.InOrder m n ts)
    (hnested : ∀ t ∈ ts, t.Nested)
    (hts : ∀ t ∈ ts, ∃ xs, ListsNodes source (Script.boundNames source t) (IsReached t) xs) :
    ∃ xs, ListsNodes source (Script.boundNamesAll source ts)
      (fun x => ∃ t ∈ ts, IsReached t x) xs := by
  induction ts generalizing m with
  | nil => exact ⟨[], rfl, by simp, .nil⟩
  | cons t ts ih =>
    obtain ⟨-, -, hbehind⟩ := horder
    obtain ⟨xs, hxs⟩ := hts t (List.mem_cons_self ..)
    obtain ⟨ys, hys⟩ := ih hbehind (fun t' ht' => hnested t' (List.mem_cons_of_mem t ht'))
      fun t' ht' => hts t' (List.mem_cons_of_mem t ht')
    refine ⟨xs ++ ys, ?_, fun x => ?_, List.pairwise_append.2 ⟨hxs.inOrder, hys.inOrder, ?_⟩⟩
    · rw [Script.boundNamesAll, hxs.names_eq, hys.names_eq, List.map_append]
    · rw [List.mem_append, hxs.mem_iff, hys.mem_iff, ← and_or_left]
      simp
    · intro x hx y hy
      obtain ⟨t', ht', hy⟩ := ((hys.mem_iff y).1 hy).2
      have ht := hnested t (List.mem_cons_self ..)
      have ht'' := hnested t' (List.mem_cons_of_mem t ht')
      have hleft := ht.bounds ht.span_le ((hxs.mem_iff x).1 hx).2.mem_nodes
      have hright := ht''.bounds ht''.span_le hy.mem_nodes
      have := hbehind.bounds ht'
      omega

theorem exists_listsNodes_of_leaf (hnil : t.children = []) (hplace : isPlace t.kind = false)
    (hname : IsTargetName t) (hnames : Script.boundNames source t = [t.text source]) :
    ∃ xs, ListsNodes source (Script.boundNames source t) (IsReached t) xs := by
  refine ⟨[t], hnames, fun x => ?_, List.pairwise_singleton _ _⟩
  rw [List.mem_singleton, isReached_iff, hnil]
  constructor
  · rintro rfl
    exact ⟨hname, hplace, .inl rfl⟩
  · rintro ⟨-, -, rfl | ⟨c, hc, -⟩⟩
    · rfl
    · exact absurd hc List.not_mem_nil

theorem exists_listsNodes_of_children (hnested : t.Nested) (hplace : isPlace t.kind = false)
    (hname : ¬ IsTargetName t)
    (hnames : Script.boundNames source t = Script.boundNamesAll source t.children)
    (hchildren : ∀ c ∈ t.children,
      ∃ xs, ListsNodes source (Script.boundNames source c) (IsReached c) xs) :
    ∃ xs, ListsNodes source (Script.boundNames source t) (IsReached t) xs := by
  obtain ⟨horder, hnestedChildren⟩ := Tree.nested_iff.1 hnested
  obtain ⟨xs, hxs⟩ := exists_listsNodes_all horder hnestedChildren hchildren
  refine ⟨xs, hnames ▸ hxs.names_eq, fun x => ?_, hxs.inOrder⟩
  rw [hxs.mem_iff, isReached_iff]
  constructor
  · rintro ⟨hx, hreached⟩
    exact ⟨hx, hplace, .inr hreached⟩
  · rintro ⟨hx, -, rfl | hreached⟩
    · exact absurd hx hname
    · exact ⟨hx, hreached⟩

/-- The names that are listed for a target are those of the identifiers in it that do not lie in an
    attribute or a subscript, in the order of the script. -/
theorem exists_listsNodes (htarget : isTarget t = true) (hnested : t.Nested)
    (hleaf : ∀ x ∈ t.nodes, x.kind = .identifier → x.children = []) :
    ∃ xs, ListsNodes source (Script.boundNames source t) (IsReached t) xs := by
  induction t using Tree.inductionOn with
  | node k r s cs ih =>
    generalize ht : Syntax.Tree.node k r s cs = t at htarget hnested hleaf ⊢
    have hchild : ∀ c ∈ t.children, isTarget c = true →
        ∃ xs, ListsNodes source (Script.boundNames source c) (IsReached c) xs := by
      intro c hc hctarget
      refine ih c (by rwa [← ht] at hc) hctarget ((Tree.nested_iff.1 hnested).2 c hc) fun x hx => ?_
      exact hleaf x (Tree.mem_nodes.2 (.inr ⟨c, hc, hx⟩))
    cases targetForm_of_isTarget htarget with
    | name hkind =>
      have hnil := hleaf t t.self_mem_nodes hkind
      have hplace : isPlace t.kind = false := by rw [hkind]; rfl
      exact exists_listsNodes_of_leaf hnil hplace (.inl hkind) (boundNames_of_name hkind)
    | bare hkind hnil =>
      have hplace : isPlace t.kind = false := by rw [hkind]; rfl
      exact exists_listsNodes_of_leaf hnil hplace (.inr ⟨hkind, hnil⟩) (boundNames_of_bare hkind hnil)
    | place hkind =>
      refine ⟨[], boundNames_of_place hkind, fun x => ?_, .nil⟩
      rw [isReached_iff, hkind]
      simp
    | @starred c hkind hc hctarget =>
      have hname : ¬ IsTargetName t := by
        rintro (h | ⟨h, -⟩) <;> simp [h, isStarred] at hkind
      refine exists_listsNodes_of_children hnested (of_isStarred hkind).1 hname
        (boundNames_of_children (.inr (.inl hkind))) fun c' hc' => hchild c' hc' ?_
      obtain rfl := List.mem_singleton.1 (hc ▸ hc' : c' ∈ [c])
      exact hctarget
    | @enclosed c hkind hsingle hc hctarget =>
      have hname : ¬ IsTargetName t := by
        rintro (h | ⟨-, h⟩)
        · simp [h, encloses] at hkind
        · simp [h] at hc
      refine exists_listsNodes_of_children hnested (of_encloses hkind).1 hname
        (boundNames_of_children (.inr (.inr ⟨hkind, by simp [hc]⟩))) fun c' hc' => hchild c' hc' ?_
      obtain rfl := List.mem_singleton.1 (hc ▸ hc' : c' ∈ [c])
      exact hctarget
    | group hkind hall =>
      have hname : ¬ IsTargetName t := by
        rintro (h | ⟨h, -⟩) <;> simp [h, isGroup] at hkind
      exact exists_listsNodes_of_children hnested (of_isGroup hkind).1 hname
        (boundNames_of_children (.inl hkind)) fun c hc => hchild c hc (hall c hc)

/-! ## What is listed for a target -/

/-- The names that are listed for a target are those that an assignment to it binds, in the order in
    which it binds them, whatever the values are; and unless stars stand where the language allows none,
    there is such an assignment. In the tree of a script they are said by the identifiers of the target
    that do not lie in an attribute or a subscript, by all of them, in the order of the script. -/
theorem boundNames_of_isTarget (htarget : isTarget t = true) :
    (∀ (V : Type) (u : Unpacking V) (v : V) (bs : List (String × V)), Assigns u source t v bs →
      bs.map Prod.fst = Script.boundNames source t) ∧
    (starsFit t = true → isStarred t.kind = false → ∀ (V : Type) (u : Unpacking V),
      ∃ vs bs, Assigns u source t (u.listOf vs) bs) ∧
    (t.Nested → (∀ x ∈ t.nodes, x.kind = .identifier → x.children = []) →
      ∃ xs : List Tree, Script.boundNames source t = xs.map (Tree.text source) ∧
        (xs.Pairwise fun x y => x.span.endByte ≤ y.span.startByte) ∧
        ∀ x, x ∈ xs ↔ IsTargetName x ∧ ∃ ys, t.Path ys x ∧ ∀ y ∈ ys, isPlace y.kind = false) := by
  refine ⟨fun V u v bs h => h.map_fst, fun hstars hstarred V u => ?_, fun hnested hleaf => ?_⟩
  · exact exists_assigns u source htarget hstars hstarred
  · obtain ⟨xs, hxs⟩ : ∃ xs, ListsNodes source (Script.boundNames source t) (IsReached t) xs :=
      exists_listsNodes htarget hnested hleaf
    exact ⟨xs, hxs.names_eq, hxs.inOrder, hxs.mem_iff⟩

end

/-- Lists among the values of data files. -/
def listValues : Unpacking Value where
  items? v := match v with
    | .list vs => some vs
    | _ => none
  listOf := .list
  items?_listOf _ := rfl

/-- Names are found in parentheses, in brackets and behind a star, and not in an attribute or a
    subscript. -/
theorem boundNames_of_nested_target :
    ∃ root x t, parse "a, (b, *c), [o.x, i[j]], (d) = v\n".toList = .ok root ∧ x ∈ root.nodes ∧
      x.kind = .assignment ∧ x.child? .left = some t ∧
      isTarget t = true ∧ starsFit t = true ∧ isStarred t.kind = false ∧
      (∃ vs bs, Assigns listValues "a, (b, *c), [o.x, i[j]], (d) = v\n".toList t (.list vs) bs ∧
        bs.map Prod.fst = ["a", "b", "c", "d"]) ∧
      t.Nested ∧ (∀ x ∈ t.nodes, x.kind = .identifier → x.children = []) ∧
      ∃ xs : List Tree,
        ["a", "b", "c", "d"] = xs.map (Tree.text "a, (b, *c), [o.x, i[j]], (d) = v\n".toList) ∧
        (xs.Pairwise fun x y => x.span.endByte ≤ y.span.startByte) ∧
        ∀ x, x ∈ xs ↔ IsTargetName x ∧ ∃ ys, t.Path ys x ∧ ∀ y ∈ ys, isPlace y.kind = false := by
  have hrun : (parse "a, (b, *c), [o.x, i[j]], (d) = v\n".toList).map (fun root =>
      (root.nodes.filter fun x => x.kind == .assignment).map fun x => (x.child? .left).map fun t =>
        (starsFit t, isStarred t.kind,
          Script.boundNames "a, (b, *c), [o.x, i[j]], (d) = v\n".toList t)) =
      .ok [some (true, false, ["a", "b", "c", "d"])] := by decide +kernel
  cases hparse : parse "a, (b, *c), [o.x, i[j]], (d) = v\n".toList with
  | error fault =>
    rw [hparse] at hrun
    simp [Except.map] at hrun
  | ok root =>
    rw [hparse] at hrun
    simp only [Except.map, Except.ok.injEq, List.map_eq_singleton_iff, Option.map_eq_some_iff,
      Prod.mk.injEq] at hrun
    obtain ⟨x, hx, t, ht, hstars, hstarred, hnames⟩ := hrun
    obtain ⟨hx, hkind⟩ := List.mem_filter.1 (hx ▸ List.mem_singleton_self x)
    have hmem : t ∈ x.nodes :=
      Tree.mem_nodes.2 (.inr ⟨t, List.mem_of_find?_eq_some ht, t.self_mem_nodes⟩)
    have htarget := isTarget_of_left hparse hx ht
    have hnested := ((nested_of_parse hparse).of_mem_nodes hx).of_mem_nodes hmem
    have hleaf : ∀ y ∈ t.nodes, y.kind = .identifier → y.children = [] := by
      intro y hy
      exact children_of_identifier hparse y (Tree.mem_nodes_trans hx (Tree.mem_nodes_trans hmem hy))
    obtain ⟨hbinds, hexists, hlist⟩ := @boundNames_of_isTarget
      "a, (b, *c), [o.x, i[j]], (d) = v\n".toList t htarget
    obtain ⟨vs, bs, h⟩ := hexists hstars hstarred Value listValues
    rw [hnames] at hlist
    exact ⟨root, x, t, rfl, hx, beq_iff_eq.1 hkind, ht, htarget, hstars, hstarred,
      ⟨vs, bs, h, (hbinds _ _ _ _ h).trans hnames⟩, hnested, hleaf, hlist hnested hleaf⟩

end Redeploy.Migration
