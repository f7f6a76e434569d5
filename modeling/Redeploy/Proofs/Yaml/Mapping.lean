import Redeploy.Yaml.Node

set_option autoImplicit false

/-! # Entries of a mapping

What the tokens of the values of a mapping are read as: a scalar, the items of a sequence that is not
indented, an empty sequence in brackets, or a mapping of such entries (`Node.IsEntries.isValue`). Every
token is used up within four calls, so the steps that a document has are enough. -/

namespace Redeploy.Yaml.Node

variable {t : Text} {style : Style} {d : Nat} {m : Measured} {ms : List Measured}
  {ts us rest : List Token} {es : List (Text × Measured)} {s : Reading}

/-! ## What nodes cost -/

/-- A node that follows no alias and is not deeper than a bound. -/
def Measured.Within (d : Nat) (m : Measured) : Prop :=
  m.aliases = 0 ∧ m.depth ≤ d

theorem Measured.totalAliases_eq_zero (h : ∀ m ∈ ms, m.Within d) : totalAliases ms = 0 := by
  have hfold : ∀ n, ms.foldl (fun n m => n + m.aliases) n = n := by
    induction ms with
    | nil => exact fun n => rfl
    | cons m ms ih =>
      obtain ⟨hm, hms⟩ := List.forall_mem_cons.1 h
      intro n
      rw [List.foldl_cons, hm.1, ih hms]
      rfl
  exact hfold 0

theorem Measured.maxDepth_le (h : ∀ m ∈ ms, m.Within d) : maxDepth ms ≤ d := by
  have hfold : ∀ n ≤ d, ms.foldl (fun n m => max n m.depth) n ≤ d := by
    induction ms with
    | nil => exact fun n hn => hn
    | cons m ms ih =>
      obtain ⟨hm, hms⟩ := List.forall_mem_cons.1 h
      exact fun n hn => ih hms _ (Nat.max_le.2 ⟨hn, hm.2⟩)
  exact hfold 0 (Nat.zero_le d)

theorem Measured.within_scalar (t : Text) (style : Style) (tag : Option Text) :
    (Measured.scalar t style tag).Within 0 :=
  ⟨rfl, Nat.le_refl 0⟩

theorem Measured.Within.mono {d' : Nat} (h : m.Within d) (hle : d ≤ d') : m.Within d' :=
  ⟨h.1, Nat.le_trans h.2 hle⟩

theorem Measured.within_sequence (h : ∀ m ∈ ms, m.Within d) (tag : Option Text) :
    (Measured.sequence ms tag).Within (d + 1) :=
  ⟨totalAliases_eq_zero h, Nat.succ_le_succ (maxDepth_le h)⟩

theorem Measured.within_mapping {entries : List (Measured × Measured)}
    (h : ∀ e ∈ entries, e.1.Within d ∧ e.2.Within d) (tag : Option Text) :
    (Measured.mapping entries tag).Within (d + 1) := by
  have hparts : ∀ m ∈ entries.map (·.1) ++ entries.map (·.2), m.Within d := by
    intro m hm
    rcases List.mem_append.1 hm with hm | hm <;> obtain ⟨e, he, rfl⟩ := List.mem_map.1 hm
    · exact (h e he).1
    · exact (h e he).2
  exact ⟨totalAliases_eq_zero hparts, Nat.succ_le_succ (maxDepth_le hparts)⟩

/-! ## Going on -/

namespace Reading

@[simp] theorem goTo_goTo (s : Reading) (ts us : List Token) : (s.goTo ts).goTo us = s.goTo us :=
  rfl

@[simp] theorem count_goTo (s : Reading) (k : Nat) (ts : List Token) :
    (s.count k).goTo ts = (s.goTo ts).count k :=
  rfl

@[simp] theorem count_count (s : Reading) (i j : Nat) : (s.count i).count j = s.count (i + j) := by
  simp [count, Nat.add_assoc]

@[simp] theorem tokens_goTo (s : Reading) (ts : List Token) : (s.goTo ts).tokens = ts :=
  rfl

@[simp] theorem tokens_count (s : Reading) (k : Nat) : (s.count k).tokens = s.tokens :=
  rfl

end Reading

/-! ## Content -/

/-- Tokens that content starts with: no alias, anchor or tag. -/
def startsContent : Token → Bool
  | .scalar .. | .openBracket | .dash | .blockMapping => true
  | _ => false

theorem read_eq_readContent {token : Token} (h : s.tokens = token :: rest)
    (htoken : startsContent token = true) (n : Nat) (place : Place) :
    read (n + 1) place s = readContent n place ⟨none, none⟩ s := by
  cases token <;> simp_all [startsContent, read, readProperties]

theorem readUnless_eq_readContent {token : Token} (h : s.tokens = token :: rest)
    (htoken : startsContent token = true) (stops : List Token) (hstops : stops.contains token = false)
    (n : Nat) (place : Place) :
    readUnless (n + 2) stops place s = readContent n place ⟨none, none⟩ s := by
  rw [readUnless, h]
  simp only [hstops, Bool.false_eq_true, if_false]
  exact read_eq_readContent h htoken n place

theorem readUnless_scalar (h : s.tokens = .scalar t style :: rest) (stops : List Token)
    (hstops : stops.contains (.scalar t style) = false) (n : Nat) (place : Place) :
    readUnless (n + 3) stops place s = some (.scalar t style none, (s.goTo rest).count 1) := by
  rw [readUnless_eq_readContent h rfl stops hstops, readContent, h]
  rfl

/-! ## Values -/

/-- The marks that stand where the key or the value of an entry has been left out. -/
def entryStops : List Token := [.key, .value, .blockEnd]

/-- Tokens that are read as the value of an entry, if no dash follows. -/
def IsValue (ts : List Token) (m : Measured) : Prop :=
  ∀ n s rest, 4 * ts.length ≤ n → s.tokens = ts ++ rest → (∀ t ∈ rest.head?, t ≠ .dash) →
    ∃ k, readUnless n entryStops .entry s = some (m, (s.goTo rest).count k)

theorem isValue_scalar (t : Text) (style : Style) : IsValue [.scalar t style] (.scalar t style none) := by
  intro n s rest hn htokens _
  obtain ⟨n, rfl⟩ := Nat.exists_eq_add_of_le' hn
  exact ⟨1, readUnless_scalar htokens entryStops rfl (n + 1) .entry⟩

theorem isValue_brackets : IsValue [.openBracket, .closeBracket] (.sequence [] none) := by
  intro n s rest hn htokens _
  obtain ⟨n, rfl⟩ := Nat.exists_eq_add_of_le' hn
  have htokens' : s.tokens = .openBracket :: .closeBracket :: rest := htokens
  have hread := readUnless_eq_readContent htokens' rfl entryStops rfl (n + 6) .entry
  refine ⟨2, hread.trans ?_⟩
  rw [readContent, htokens']
  simp [readFlowItems, afterComma, Reading.goTo, Reading.count]

/-! ## Items -/

/-- The tokens of scalars that are the items of a sequence. -/
def itemTokens (items : List (Text × Style)) : List Token :=
  items.flatMap fun p => [.dash, .scalar p.1 p.2]

/-- The scalars themselves. -/
def itemNodes (items : List (Text × Style)) : List Measured :=
  items.map fun p => .scalar p.1 p.2 none

theorem exists_readLooseItems (items : List (Text × Style)) {n : Nat} (hn : items.length + 4 ≤ n)
    (htokens : s.tokens = itemTokens items ++ rest) (hrest : ∀ t ∈ rest.head?, t ≠ .dash) :
    ∃ k, readLooseItems n s = some (itemNodes items, (s.goTo rest).count k) := by
  induction items generalizing n s with
  | nil =>
    obtain ⟨n, rfl⟩ := Nat.exists_eq_add_of_le' (Nat.one_le_of_lt hn)
    have htokens' : s.tokens = rest := htokens
    refine ⟨0, ?_⟩
    rw [readLooseItems]
    split
    · next heq => exact absurd rfl (hrest _ (by rw [← htokens', heq]; rfl))
    · rw [← htokens']
      rfl
  | cons p items ih =>
    rw [List.length_cons] at hn
    obtain ⟨n, rfl⟩ := Nat.exists_eq_add_of_le' (show 4 ≤ n by omega)
    have htokens' : s.tokens = .dash :: .scalar p.1 p.2 :: (itemTokens items ++ rest) := htokens
    have hitem := readUnless_scalar (s := s.goTo (.scalar p.1 p.2 :: (itemTokens items ++ rest)))
      rfl [.dash, .key, .value, .blockEnd] rfl n .item
    obtain ⟨k, hread⟩ := ih (s := (s.goTo (itemTokens items ++ rest)).count 1) (n := n + 3) (by omega) rfl
    refine ⟨1 + k, ?_⟩
    rw [readLooseItems, htokens']
    simp only [hitem, Reading.goTo_goTo, hread, Option.map_some, Reading.count_goTo, Reading.count_count]
    rfl

/-- The items of a sequence that is not indented. -/
theorem isValue_items {items : List (Text × Style)} (h : items ≠ []) :
    IsValue (itemTokens items) (.sequence (itemNodes items) none) := by
  intro n s rest hn htokens hrest
  have hlength : (itemTokens items).length = 2 * items.length := by
    simp [itemTokens, List.length_flatMap, List.map_const', Nat.mul_comm]
  have hpos := List.length_pos_iff.2 h
  obtain ⟨m, rfl⟩ := Nat.exists_eq_add_of_le' (show 3 ≤ n by omega)
  obtain ⟨k, hread⟩ := exists_readLooseItems (s := s.count 2) items (n := m) (by omega) htokens hrest
  obtain ⟨p, items, rfl⟩ := List.exists_cons_of_ne_nil h
  have htokens' : s.tokens = .dash :: .scalar p.1 p.2 :: (itemTokens items ++ rest) := htokens
  have hcontent := readUnless_eq_readContent htokens' rfl entryStops rfl (m + 1) .entry
  refine ⟨2 + k, hcontent.trans ?_⟩
  rw [readContent, htokens']
  simp only [and_self, if_true, hread, Option.map_some, Reading.count_goTo, Reading.count_count]

/-! ## Entries -/

/-- The tokens of the entries of a mapping and what closes it. -/
inductive IsEntries : List Token → List (Text × Measured) → Prop
  | nil : IsEntries [.blockEnd] []
  | cons {ts us : List Token} {m : Measured} {es : List (Text × Measured)} (label : Text) (hv : IsValue ts m)
    (h : IsEntries us es) :
    IsEntries (.key :: .scalar label .plain :: .value :: (ts ++ us)) ((label, m) :: es)

theorem IsEntries.scalar (label t : Text) (style : Style) (h : IsEntries us es) :
    IsEntries (.key :: .scalar label .plain :: .value :: .scalar t style :: us)
      ((label, .scalar t style none) :: es) :=
  .cons label (isValue_scalar t style) h

/-- The nodes of entries. -/
def entryNodes (es : List (Text × Measured)) : List (Measured × Measured) :=
  es.map fun e => (.scalar e.1 .plain none, e.2)

/-- No dash stands where an entry starts or a mapping ends. -/
theorem IsEntries.head_ne_dash (h : IsEntries ts es) : ∀ t ∈ (ts ++ rest).head?, t ≠ .dash := by
  rintro t ht rfl
  cases h <;> cases ht

/-- Entries are read, up to the mark that closes their mapping. -/
theorem IsEntries.exists_readEntries (h : IsEntries ts es) {n : Nat} (hn : 4 * ts.length ≤ n)
    (htokens : s.tokens = ts ++ rest) :
    ∃ k, readEntries n s = some (entryNodes es, (s.goTo rest).count k) := by
  induction h generalizing n s with
  | nil =>
    obtain ⟨n, rfl⟩ := Nat.exists_eq_add_of_le' hn
    have htokens' : s.tokens = .blockEnd :: rest := htokens
    refine ⟨0, ?_⟩
    rw [List.length_singleton, Nat.mul_one, readEntries, htokens']
    rfl
  | @cons ts us m es label hv h ih =>
    simp only [List.length_cons, List.length_append] at hn
    obtain ⟨n, rfl⟩ := Nat.exists_eq_add_of_le' (show 4 ≤ n by omega)
    have htokens' : s.tokens = .key :: .scalar label .plain :: .value :: (ts ++ (us ++ rest)) := by
      simpa using htokens
    have hkey := readUnless_scalar (s := s.goTo (.scalar label .plain :: .value :: (ts ++ (us ++ rest))))
      rfl [.key, .value, .blockEnd] rfl n .entry
    obtain ⟨i, hvalue⟩ := hv (n + 2) ((s.goTo (ts ++ (us ++ rest))).count 1) (us ++ rest) (by omega) rfl
      h.head_ne_dash
    obtain ⟨j, hread⟩ := ih (s := (s.goTo (us ++ rest)).count (1 + i)) (n := n + 3) (by omega) rfl
    refine ⟨1 + i + j, ?_⟩
    rw [entryStops] at hvalue
    rw [readEntries, htokens']
    simp only [hkey, readEntryValue, Reading.tokens_count, Reading.tokens_goTo,
      Reading.goTo_goTo, Reading.count_goTo, Reading.count_count, hvalue, hread, Option.map_some]
    rfl

theorem IsEntries.exists_readContent (h : IsEntries ts es) {n : Nat} (place : Place) (hplace : place ≠ .flow)
    (hn : 4 * ts.length < n) (htokens : s.tokens = .blockMapping :: (ts ++ rest)) :
    ∃ k, readContent n place ⟨none, none⟩ s =
      some (.mapping (entryNodes es) none, (s.goTo rest).count k) := by
  obtain ⟨n, rfl⟩ := Nat.exists_eq_add_of_le' (Nat.one_le_of_lt hn)
  obtain ⟨k, hread⟩ := h.exists_readEntries (s := (s.goTo (ts ++ rest)).count 2) (n := n) (by omega) rfl
  refine ⟨2 + k, ?_⟩
  rw [readContent, htokens]
  simp [hplace, hread]

/-- A mapping that is indented deeper is the value of an entry. -/
theorem IsEntries.isValue (h : IsEntries ts es) :
    IsValue (.blockMapping :: ts) (.mapping (entryNodes es) none) := by
  intro n s rest hn htokens _
  rw [List.length_cons] at hn
  obtain ⟨n, rfl⟩ := Nat.exists_eq_add_of_le' (show 2 ≤ n by omega)
  obtain ⟨k, hread⟩ := h.exists_readContent (n := n) .entry (by simp) (by omega) htokens
  exact ⟨k, (readUnless_eq_readContent htokens rfl entryStops rfl n .entry).trans hread⟩

/-! ## Documents -/

/-- The node of a document that is a mapping. -/
theorem IsEntries.ofTokens?_eq (h : IsEntries ts es) (hd : d < maxDepth) (hes : ∀ e ∈ es, e.2.Within d) :
    ofTokens? (.blockMapping :: ts) =
      some (.mapping (es.map fun e => (.scalar e.1 .plain none, e.2.node)) none) := by
  have hstart : readDocument (.blockMapping :: ts) = readWhole (documentStart [] (.blockMapping :: ts)) := rfl
  have htokens : (documentStart [] (.blockMapping :: ts)).tokens = .blockMapping :: (ts ++ []) := by
    simp [documentStart]
  obtain ⟨k, hread⟩ := h.exists_readContent (n := 4 * (ts.length + 1) + 3) .item (by simp)
    (by omega) htokens
  have hwithin : (Measured.mapping (entryNodes es) none).Within (d + 1) := by
    refine Measured.within_mapping (fun e he => ?_) none
    obtain ⟨e, hmem, rfl⟩ := List.mem_map.1 he
    exact ⟨(Measured.within_scalar _ _ _).mono (Nat.zero_le d), hes e hmem⟩
  have hlimits : (Measured.mapping (entryNodes es) none).depth ≤ maxDepth :=
    Nat.le_trans hwithin.2 hd
  have hwhole := (read_eq_readContent htokens rfl (4 * (ts.length + 1) + 3) .item).trans hread
  have hlength : (documentStart [] (.blockMapping :: ts)).tokens.length = ts.length + 1 := rfl
  rw [ofTokens?, hstart, readWhole, hlength, hwhole]
  simp only [Option.bind_eq_bind, Option.bind_some, Reading.tokens_count, Reading.tokens_goTo, hwithin.1,
    decide_eq_true hlimits, List.all_nil, Nat.zero_le, decide_true, Bool.and_self, if_true,
    Option.pure_def]
  rw [Measured.mapping, entryNodes, List.map_map]
  rfl

end Redeploy.Yaml.Node
