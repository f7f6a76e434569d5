import Redeploy.Proofs.Yaml.Layout
import Redeploy.Proofs.Yaml.Literal
import Redeploy.Proofs.Yaml.Quoted

set_option autoImplicit false

/-! # Scalars are read back

Whichever way a text is written, it is read back as the scalar it was (`Layout.exists_leads_scalar`), and
reading goes on at the line behind it. -/

namespace Redeploy.Yaml

open Written

variable {i column n : Nat} {c : Char} {t u : Text} {outer : List Nat} {allowed : Bool}
  {tokens : List Token}

/-! ## Characters -/

namespace Written

theorem isPrintable_spaces (k : Nat) : ∀ c ∈ List.replicate k ' ', isPrintable c = true := by
  intro c hc
  rw [List.eq_of_mem_replicate hc]
  rfl

theorem isPrintable_append_singleton (h : ∀ c ∈ t, isPrintable c = true) (hc : isPrintable c = true) :
    ∀ d ∈ t ++ [c], isPrintable d = true :=
  List.forall_mem_append.2 ⟨h, List.forall_mem_singleton.2 hc⟩

theorem isPrintable_double (t : Text) : ∀ c ∈ double t, isPrintable c = true := by
  refine List.forall_mem_cons.2 ⟨rfl, isPrintable_append_singleton (fun d hd => ?_) rfl⟩
  obtain ⟨c, -, hmem⟩ := List.mem_flatMap.1 hd
  rcases Quoted.escaped_cases c with ⟨heq, hprint, -⟩ | ⟨w, heq, hw⟩
  · rw [heq] at hmem
    rwa [List.mem_singleton.1 hmem]
  · rw [heq] at hmem
    have hall : ∀ e ∈ '\\' :: w, isPrintable e = true := List.forall_mem_cons.2 ⟨rfl, hw.printable⟩
    exact hall d hmem

theorem isPrintable_singleFrom (h : ∀ c ∈ t, isPrintable c = true) (k : Nat) (ended : Bool) :
    ∀ c ∈ singleFrom k ended t, isPrintable c = true := by
  induction t generalizing ended with
  | nil => exact isPrintable_append_singleton (isPrintable_spaces _) rfl
  | cons d t ih =>
    obtain ⟨hd, ht⟩ := List.forall_mem_cons.1 h
    rw [singleFrom]
    split
    · exact List.forall_mem_cons.2 ⟨hd, ih ht true⟩
    · refine List.forall_mem_append.2 ⟨List.forall_mem_append.2 ⟨isPrintable_spaces _, ?_⟩, ih ht false⟩
      split
      · exact List.forall_mem_cons.2 ⟨rfl, List.forall_mem_singleton.2 rfl⟩
      · exact List.forall_mem_singleton.2 hd

theorem isPrintable_literalLines (h : ∀ c ∈ t, isPrintable c = true) (k : Nat) (atStart : Bool) :
    ∀ c ∈ literalLines k atStart t, isPrintable c = true := by
  induction t generalizing atStart with
  | nil => cases atStart <;> simp [literalLines, isPrintable]
  | cons d t ih =>
    obtain ⟨hd, ht⟩ := List.forall_mem_cons.1 h
    rw [literalLines]
    split
    · exact List.forall_mem_cons.2 ⟨hd, ih ht true⟩
    · exact List.forall_mem_append.2 ⟨isPrintable_spaces _, List.forall_mem_cons.2 ⟨hd, ih ht false⟩⟩

theorem isPrintable_chompingSign (t : Text) : ∀ c ∈ chompingSign t, isPrintable c = true := by
  rw [chompingSign]
  repeat' split
  all_goals simp [isPrintable]

theorem isPrintable_literal (h : ∀ c ∈ t, isPrintable c = true) (k : Nat) :
    ∀ c ∈ literal k t, isPrintable c = true := by
  refine List.forall_mem_append.2 ⟨?_, List.forall_mem_cons.2 ⟨rfl, isPrintable_literalLines h k true⟩⟩
  refine List.forall_mem_cons.2 ⟨rfl, List.forall_mem_append.2 ⟨?_, isPrintable_chompingSign t⟩⟩
  split
  · exact List.forall_mem_singleton.2 rfl
  · exact List.forall_mem_nil _

/-- A scalar is written with characters that may be. -/
theorem isPrintable_scalar (k : Nat) (t : Text) : ∀ c ∈ scalar k t, isPrintable c = true := by
  rw [scalar]
  split
  · split
    · next h =>
      simp only [allowsLiteral, Bool.not_eq_true', Bool.or_eq_false_iff] at h
      exact isPrintable_literal (isPrintable_of_needsEscapes h.1) k
    · exact isPrintable_append_singleton (isPrintable_double t) rfl
  split
  · next h =>
    exact isPrintable_append_singleton (allowsPlain_spec (Bool.and_eq_true_iff.1 h).2).1 rfl
  split
  · next h =>
    have hprint := isPrintable_of_needsEscapes (allowsSingle_spec h).1
    exact isPrintable_append_singleton
      (List.forall_mem_cons.2 ⟨rfl, isPrintable_singleFrom hprint k false⟩) rfl
  · exact isPrintable_append_singleton (isPrintable_double t) rfl

/-! ## Without quotes -/

/-- How a text without quotes starts. -/
theorem allowsPlain_start (h : allowsPlain (c :: t) = true) :
    isBlank c = false ∧ isBreak c = false ∧ c ≠ '#' ∧
      ∀ i j u, Layout.StartsPlain ⟨c, i, j⟩ (glyphsFrom i (j + 1) (t ++ u)) := by
  obtain ⟨hprint, hline, hhead, -, -, hstart, -⟩ := allowsPlain_spec h
  have hspace : c ≠ ' ' := fun heq => hhead (by rw [heq]; rfl)
  have htab := (isPrintable_spec (hprint c (by simp))).2.2.1
  simp only [startsWithIndicator, Bool.or_eq_false_iff] at hstart
  obtain ⟨⟨⟨hothers, hopen⟩, hclose⟩, hgap⟩ := hstart
  refine ⟨by simp [isBlank, hspace, htab], hline c (by simp), ?_, fun i j u => ?_⟩
  · rintro rfl
    cases hothers
  by_cases hmem : c ∈ ['-', '?', ':']
  · have hcontains : "?:-".toList.contains c = true := by
      have hall : (['-', '?', ':'].all "?:-".toList.contains) = true := by decide
      exact List.all_eq_true.1 hall c hmem
    rw [hcontains, Bool.true_and] at hgap
    refine .inr ⟨hmem, ?_⟩
    cases t with
    | nil => cases hgap
    | cons e t =>
      simp only [startsWithGap, List.head?_cons, Option.all_some, isGapChar, Bool.or_eq_false_iff] at hgap
      simp [glyphsFrom, atGap, hgap]
  · simp only [String.reduceToList, List.contains_eq_mem, List.mem_cons, List.not_mem_nil, or_false,
      decide_eq_false_iff_not, not_or, beq_eq_false_iff_ne] at hothers hmem hopen hclose
    exact .inl (by simp [Plain.isIndicator, Plain.isFlowIndicator, hothers, hmem, hopen, hclose])

end Written

namespace Layout

/-- A text without quotes is read back. -/
theorem Leads.plain (h : allowsPlain t = true) (ht : t ≠ []) (hn : n < column)
    (hu : Follows (n + 1) u) (i : Nat) :
    Leads (block (n :: outer) allowed tokens) (glyphsFrom i column (t ++ '\n' :: u))
      (block (n :: outer) true (.scalar t .plain :: tokens)) (glyphsFrom (i + 1) 0 u) := by
  obtain ⟨gap, rest, hread, hgap, hrest⟩ := Plain.exists_read?_line h ht hn hu i
  obtain ⟨c, t, rfl⟩ := List.exists_cons_of_ne_nil ht
  obtain ⟨hblank, hbreak, hmark, hstart⟩ := allowsPlain_start h
  have hplain := hstart i column ('\n' :: u)
  have hmarker := atDocumentMarker_of_column (g := ⟨c, i, column⟩) (Nat.ne_zero_of_lt hn)
    (glyphsFrom i (column + 1) (t ++ '\n' :: u))
  have hstarts := hplain.startsHere hblank hbreak
  rw [List.cons_append, glyphsFrom_cons hbreak] at hread ⊢
  have htoken : ((block (n :: outer) allowed tokens).closeTo column).readToken ⟨c, i, column⟩
      (glyphsFrom i (column + 1) (t ++ '\n' :: u)) =
        some ((block (n :: outer) true (.scalar (c :: t) .plain :: tokens)).withKey
          (possibleKey (n :: outer) allowed tokens ⟨c, i, column⟩), rest) := by
    rw [block_closeTo (Nat.le_of_lt hn), hplain.readToken rfl hmarker, readPlain]
    have hflow : (block (n :: outer) allowed tokens).inFlow = false := rfl
    have hinner : (block (n :: outer) allowed tokens).inner = n + 1 := rfl
    simp only [hflow, hinner, hstarts, hread, block_node, hgap, Bool.not_true, Bool.false_eq_true, if_false,
      if_true, Option.bind_eq_bind, Option.bind_some, Option.pure_def]
    rfl
  have hafter : Alike ((block (n :: outer) true (.scalar (c :: t) .plain :: tokens)).withKey
      (possibleKey (n :: outer) allowed tokens ⟨c, i, column⟩)) rest
      (block (n :: outer) true (.scalar (c :: t) .plain :: tokens)) (glyphsFrom (i + 1) 0 u) :=
    (Alike.of_skipGap (hrest.skipGap _).symm).trans (.forget_block hn (Nat.lt_succ_self i) u)
  refine .token hblank hbreak hmark (block_dropDistantKeys _) htoken hafter ?_
  simp only [length_glyphsFrom, List.length_append, List.length_cons]
  omega

/-! ## Between quotes -/

/-- What is read between quotes is a scalar, and its line ends behind the closing one. -/
theorem Leads.quoted {g : Glyph} {gs : List Glyph} {j column' : Nat}
    (hg : g.char = '\'' ∨ g.char = '"') (hn : n < g.column) (hline : g.line ≤ j)
    (hread : ∀ s : Layout, s.readToken g gs =
      (s.node g (.scalar t .quoted)).map fun s => (s, glyphsFrom j column' ('\n' :: u)))
    (hlength : u.length < gs.length) : Leads (block (n :: outer) allowed tokens) (g :: gs)
      (block (n :: outer) true (.scalar t .quoted :: tokens)) (glyphsFrom (j + 1) 0 u) := by
  have hchar : isBlank g.char = false ∧ isBreak g.char = false ∧ g.char ≠ '#' := by
    rcases hg with h | h <;> rw [h] <;> decide
  have htoken := hread ((block (n :: outer) allowed tokens).closeTo g.column)
  rw [block_closeTo (Nat.le_of_lt hn), block_node] at htoken
  have hafter : Alike ((block (n :: outer) false (.scalar t .quoted :: tokens)).withKey
      (possibleKey (n :: outer) allowed tokens g)) (glyphsFrom j column' ('\n' :: u))
      (block (n :: outer) true (.scalar t .quoted :: tokens)) (glyphsFrom (j + 1) 0 u) :=
    (Alike.break rfl j column' u).trans (.forget_block hn (Nat.lt_succ_of_le hline) u)
  refine .token hchar.1 hchar.2.1 hchar.2.2 (block_dropDistantKeys _) ?_ hafter ?_
  · rw [block_closeTo (Nat.le_of_lt hn)]
    exact htoken
  · rw [length_glyphsFrom]
    omega

theorem readToken_single {gs gs' : List Glyph} (hcolumn : column ≠ 0) (h : Quoted.single? gs = some (t, gs'))
    (s : Layout) : s.readToken ⟨'\'', i, column⟩ gs =
      (s.node ⟨'\'', i, column⟩ (.scalar t .quoted)).map fun s => (s, gs') := by
  have hmarker := fun mark => atMarker_of_column (g := ⟨'\'', i, column⟩) mark hcolumn gs
  simp [readToken, hmarker, h]
  exact (Option.map_eq_bind ..).symm

theorem readToken_double {gs gs' : List Glyph} (hcolumn : column ≠ 0) (h : Quoted.double? gs = some (t, gs'))
    (s : Layout) : s.readToken ⟨'"', i, column⟩ gs =
      (s.node ⟨'"', i, column⟩ (.scalar t .quoted)).map fun s => (s, gs') := by
  have hmarker := fun mark => atMarker_of_column (g := ⟨'"', i, column⟩) mark hcolumn gs
  simp [readToken, hmarker, h]
  exact (Option.map_eq_bind ..).symm

theorem exists_leads_single (h : allowsSingle t = true) (hline : '\n' ∉ t) (hn : n < column) {k : Nat}
    (hk : 0 < k) (i : Nat) : ∃ j, Leads (block (n :: outer) allowed tokens)
      (glyphsFrom i column (single k t ++ '\n' :: u))
      (block (n :: outer) true (.scalar t .quoted :: tokens)) (glyphsFrom j 0 u) := by
  obtain ⟨j, column', hij, hread⟩ := Quoted.exists_single? (u := '\n' :: u) h hline hk
    (Nat.succ_ne_zero column) (by simp) i
  rw [single, List.cons_append, glyphsFrom_cons (by rfl)]
  refine ⟨j + 1, .quoted (.inl rfl) hn hij (readToken_single (Nat.ne_zero_of_lt hn) hread) ?_⟩
  simp only [length_glyphsFrom, List.length_append, List.length_cons]
  omega

theorem exists_leads_double (hn : n < column) (i : Nat) (t : Text) :
    ∃ j, Leads (block (n :: outer) allowed tokens) (glyphsFrom i column (double t ++ '\n' :: u))
      (block (n :: outer) true (.scalar t .quoted :: tokens)) (glyphsFrom j 0 u) := by
  obtain ⟨column', hread⟩ := Quoted.exists_double? (Nat.succ_ne_zero column) i t ('\n' :: u)
  rw [double, List.cons_append, List.cons_append, List.append_assoc, List.singleton_append,
    glyphsFrom_cons (by rfl)]
  refine ⟨i + 1, .quoted (.inr rfl) hn (Nat.le_refl i)
    (readToken_double (Nat.ne_zero_of_lt hn) hread) ?_⟩
  simp only [length_glyphsFrom, List.length_append, List.length_cons]
  omega

/-! ## As lines -/

theorem exists_leads_literal (h : allowsLiteral t = true) (ht : t ≠ []) (hn : n < column)
    (hu : Follows (n + 1) u) (i : Nat) : ∃ j,
      Leads (block (n :: outer) allowed tokens) (glyphsFrom i column (literal (n + 2) t ++ u))
        (block (n :: outer) true (.scalar t .literal :: tokens)) (glyphsFrom j 0 u) := by
  obtain ⟨rest, j, hread, hij, hrest⟩ := Block.exists_read? h ht
    (Nat.le_succ _) hu outer i (column + 1)
  have hliteral : literal (n + 2) t = '|' :: (literal (n + 2) t).tail := rfl
  have hmarker := fun mark gs => atMarker_of_column (g := ⟨'|', i, column⟩) mark (Nat.ne_zero_of_lt hn) gs
  rw [hliteral, List.cons_append, glyphsFrom_cons (by rfl)]
  have htoken : ((block (n :: outer) allowed tokens).closeTo column).readToken ⟨'|', i, column⟩
      (glyphsFrom i (column + 1) ((literal (n + 2) t).tail ++ u)) =
        some (block (n :: outer) true (.scalar t .literal :: tokens), rest) := by
    have hindents : (block (n :: outer) allowed tokens).indents = n :: outer := rfl
    have hinner : (block (n :: outer) allowed tokens).inner = n + 1 := rfl
    have hflow : (block (n :: outer) allowed tokens).inFlow = false := rfl
    rw [block_closeTo (Nat.le_of_lt hn)]
    simp [readToken, hmarker, readBlock, hindents, hinner, hflow, hread]
    rfl
  refine ⟨j, .token rfl rfl (show '|' ≠ '#' by decide) (block_dropDistantKeys _) htoken
    (.of_skipGap (hrest.skipGap _).symm) ?_⟩
  simp only [length_glyphsFrom, List.length_append]
  omega

/-! ## Any text -/

/-- How a text is written. -/
def scalarStyle (t : Text) : Style :=
  if t.contains '\n' then (if allowsLiteral t then .literal else .quoted)
  else if !Implicit.isTaken t && allowsPlain t then .plain
  else .quoted

/-- A scalar is read back as the text that was written. -/
theorem exists_leads_scalar (hn : n < column) (hu : Follows (n + 1) u) (i : Nat) (t : Text) :
    ∃ j, Leads (block (n :: outer) allowed tokens) (glyphsFrom i column (scalar (n + 2) t ++ u))
      (block (n :: outer) true (.scalar t (scalarStyle t) :: tokens)) (glyphsFrom j 0 u) := by
  have hline : ∀ w : Text, w ++ ['\n'] ++ u = w ++ '\n' :: u := by simp
  rw [scalar, scalarStyle]
  by_cases hmem : t.contains '\n' = true
  · rw [if_pos hmem, if_pos hmem]
    split
    · next h =>
      have ht : t ≠ [] := List.ne_nil_of_mem (List.contains_iff_mem.1 hmem)
      exact exists_leads_literal h ht hn hu i
    · rw [hline]
      exact exists_leads_double hn i t
  · have hbreak : '\n' ∉ t := fun h => hmem (List.contains_iff_mem.2 h)
    rw [if_neg hmem, if_neg hmem]
    split
    · next h =>
      obtain ⟨htaken, hplain⟩ := Bool.and_eq_true_iff.1 h
      have ht : t ≠ [] := by
        rintro rfl
        cases htaken
      rw [hline]
      exact ⟨i + 1, .plain hplain ht hn hu i⟩
    split
    · next h =>
      rw [hline]
      exact exists_leads_single h hbreak hn (Nat.succ_pos _) i
    · rw [hline]
      exact exists_leads_double hn i t

end Layout

end Redeploy.Yaml
