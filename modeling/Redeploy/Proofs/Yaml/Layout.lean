import Redeploy.Proofs.Yaml.Plain

set_option autoImplicit false

/-! # Reading on

The tokens of a text are read step by step, and what is left to read decides with the layout what comes
of it. A text leads from one layout to another where reading it to the end comes to the same as reading
what is left behind it (`Layout.Leads`), which is known for one token at a time and composes. -/

namespace Redeploy.Yaml

variable {line column inner k : Nat} {t u : Text} {g : Glyph} {gs gs' gs'' rest : List Glyph}

theorem line_le_of_mem_glyphsFrom (h : g ∈ glyphsFrom line column t) : line ≤ g.line := by
  induction t generalizing line column with
  | nil => simp [glyphsFrom] at h
  | cons c t ih =>
    rw [glyphsFrom] at h
    rcases List.mem_cons.1 h with rfl | h
    · exact Nat.le_refl _
    · split at h
      · exact Nat.le_of_succ_le (ih h)
      · exact ih h

namespace Layout

variable {s s' s'' : Layout} {indents outer : List Nat} {allowed : Bool} {tokens : List Token}

/-! ## Composition -/

/-- From both places the same is read. -/
def Alike (s : Layout) (gs : List Glyph) (s' : Layout) (gs' : List Glyph) : Prop :=
  ∀ n, readAll (n + 1) s gs = readAll (n + 1) s' gs'

/-- After some steps, of which each uses up a glyph, reading goes on at another place. -/
def Leads (s : Layout) (gs : List Glyph) (s' : Layout) (gs' : List Glyph) : Prop :=
  ∃ steps, steps + gs'.length ≤ gs.length ∧ ∀ n, readAll (n + 1 + steps) s gs = readAll (n + 1) s' gs'

theorem Alike.trans (h : Alike s gs s' gs') (h' : Alike s' gs' s'' gs'') : Alike s gs s'' gs'' :=
  fun n => (h n).trans (h' n)

theorem Alike.leads (h : Alike s gs s' gs') (hle : gs'.length ≤ gs.length) : Leads s gs s' gs' :=
  ⟨0, by omega, h⟩

theorem Leads.trans (h : Leads s gs s' gs') (h' : Leads s' gs' s'' gs'') : Leads s gs s'' gs'' := by
  obtain ⟨i, hi, hread⟩ := h
  obtain ⟨j, hj, hread'⟩ := h'
  refine ⟨i + j, by omega, fun n => ?_⟩
  rw [← hread' n, Nat.add_right_comm n 1 j, ← hread (n + j)]
  congr 1
  omega

/-- A text is read to its end when that is reached from its start. -/
theorem Leads.readAll_eq (h : Leads s gs s' []) :
    readAll (gs.length + 1) s gs = s'.closeAll.dropKey.map fun s => s.tokens.reverse := by
  obtain ⟨steps, hsteps, hread⟩ := h
  have hread' := hread (gs.length - steps)
  rw [show gs.length - steps + 1 + steps = gs.length + 1 by simp at hsteps; omega] at hread'
  rw [hread', readAll, skipGap]

/-! ## Blank space -/

theorem Alike.of_skipGap (h : s.skipGap false gs = s'.skipGap false gs') : Alike s gs s' gs' := by
  intro n
  rw [readAll, h, ← readAll]

theorem Leads.of_skipsTo (h : SkipsTo gs gs') : Leads s gs s gs' :=
  (Alike.of_skipGap (h.skipGap s)).leads h.length

theorem Leads.spaces (s : Layout) (line column k : Nat) (t : Text) :
    Leads s (glyphsFrom line column (List.replicate k ' ' ++ t)) s (glyphsFrom line (column + k) t) :=
  .of_skipsTo (.spaces line column k t)

theorem Leads.space (s : Layout) (line column : Nat) (t : Text) :
    Leads s (glyphsFrom line column (' ' :: t)) s (glyphsFrom line (column + 1) t) :=
  .spaces s line column 1 t

theorem Alike.break (hs : s.inFlow = false) (i j : Nat) (t : Text) :
    Alike s (glyphsFrom i j ('\n' :: t)) (s.allowKey true) (glyphsFrom (i + 1) 0 t) := by
  have hbreak : isBreak '\n' = true := rfl
  refine .of_skipGap ?_
  rw [glyphsFrom_break hbreak, skipGap]
  simp only [hbreak, hs, Bool.false_eq_true, if_false, if_true]

theorem skipGap_of_token (hblank : isBlank g.char = false) (hbreak : isBreak g.char = false)
    (hmark : g.char ≠ '#') (s : Layout) : s.skipGap false (g :: rest) = (s, g :: rest) := by
  simp only [isBlank, Bool.or_eq_false_iff] at hblank
  rw [skipGap]
  simp [hblank, hbreak, hmark]

/-! ## Possible keys that are none -/

/-- The layout with another possible key. -/
def withKey (s : Layout) (key : Option PossibleKey) : Layout :=
  { s with key := key }

theorem withKey_inFlow (s : Layout) (key : Option PossibleKey) :
    (s.withKey key).inFlow = s.inFlow :=
  rfl

theorem withKey_closeAll (s : Layout) (key : Option PossibleKey) :
    (s.withKey key).closeAll = s.closeAll.withKey key := by
  rw [closeAll, closeAll, withKey_inFlow]
  split <;> rfl

theorem skipGap_withKey (s : Layout) (key : Option PossibleKey) (comment : Bool) (gs : List Glyph) :
    (s.withKey key).skipGap comment gs =
      ((s.skipGap comment gs).1.withKey key, (s.skipGap comment gs).2) := by
  induction gs generalizing s comment with
  | nil => rfl
  | cons g gs ih =>
    have hkeyAllowed : (s.withKey key).keyAllowed = s.keyAllowed := rfl
    have hallow : (if (s.withKey key).inFlow then s.withKey key else (s.withKey key).allowKey true) =
        (if s.inFlow then s else s.allowKey true).withKey key := by
      rw [withKey_inFlow]
      split <;> rfl
    rw [skipGap, hallow, ih, ih, ih, skipGap, withKey_inFlow, hkeyAllowed]
    repeat' split
    all_goals rfl

theorem skipGap_spec (s : Layout) (comment : Bool) (gs : List Glyph) :
    (s.skipGap comment gs).1.key = s.key ∧ ∀ g ∈ (s.skipGap comment gs).2, g ∈ gs := by
  induction gs generalizing s comment with
  | nil => exact ⟨rfl, fun _ h => h⟩
  | cons g gs ih =>
    have hkey : (if s.inFlow then s else s.allowKey true).key = s.key := by
      split <;> rfl
    rw [skipGap]
    split
    · exact ⟨(ih _ _).1.trans hkey, fun d hd => List.mem_cons_of_mem g ((ih _ _).2 d hd)⟩
    split
    · exact ⟨(ih _ _).1, fun d hd => List.mem_cons_of_mem g ((ih _ _).2 d hd)⟩
    split
    · exact ⟨(ih _ _).1, fun d hd => List.mem_cons_of_mem g ((ih _ _).2 d hd)⟩
    · exact ⟨rfl, fun _ h => h⟩

/-- A possible key that need not be one. -/
theorem reachingKey_eq_none {key : Option PossibleKey}
    (h : ∀ p ∈ key, p.required = false ∧ p.line < g.line) : reachingKey g key = some none := by
  cases key with
  | none => rfl
  | some p =>
    obtain ⟨hrequired, hline⟩ := h p rfl
    have hreaches : p.reaches g = false := by simp [PossibleKey.reaches, Nat.ne_of_lt hline]
    simp [reachingKey, hreaches, hrequired]

theorem dropKey_eq (h : ∀ p ∈ s.key, p.required = false) : s.dropKey = some (s.withKey none) := by
  rw [dropKey]
  split
  · next p hp => rw [h p hp]; rfl
  · next hnone => rw [withKey, ← hnone]

/-- A possible key is dropped where its line is over. -/
theorem Alike.forget (h : ∀ p ∈ s.key, p.required = false ∧ ∀ g ∈ gs, p.line < g.line) :
    Alike s gs (s.withKey none) gs := by
  intro n
  obtain ⟨hkey, hmem⟩ := s.skipGap_spec false gs
  rw [readAll, readAll, skipGap_withKey]
  generalize s.skipGap false gs = p at hkey hmem
  obtain ⟨s', rest⟩ := p
  simp only at hkey hmem
  rw [← hkey] at h
  cases rest with
  | nil =>
    have hclose : s'.closeAll.key = s'.key := by
      rw [closeAll]
      split <;> rfl
    have hdrop := dropKey_eq (s := s'.closeAll) fun p hp => (h p (hclose ▸ hp)).1
    have hdrop' := dropKey_eq (s := s'.closeAll.withKey none) (by simp [withKey])
    simp only [withKey_closeAll, hdrop, hdrop']
    rfl
  | cons g rest =>
    have hreach := reachingKey_eq_none fun p hp => ⟨(h p hp).1, (h p hp).2 g (hmem g (by simp))⟩
    simp only [dropDistantKeys, hreach]
    rfl

/-! ## One token -/

/-- A token is read where it stands. -/
theorem Leads.token {s₁ s₂ : Layout} {rest₂ : List Glyph} (hblank : isBlank g.char = false)
    (hbreak : isBreak g.char = false) (hmark : g.char ≠ '#') (hkeys : s.dropDistantKeys g = some s₁)
    (hread : (s₁.closeTo g.column).readToken g rest = some (s₂, rest₂)) (hnext : Alike s₂ rest₂ s' gs')
    (hle : gs'.length ≤ rest.length) : Leads s (g :: rest) s' gs' := by
  refine ⟨1, by simp only [List.length_cons]; omega, fun n => ?_⟩
  rw [readAll, skipGap_of_token hblank hbreak hmark]
  simp only [hkeys, hread, Option.bind_eq_bind, Option.bind_some]
  exact hnext n

/-- Where a scalar without quotes may start. -/
def StartsPlain (g : Glyph) (rest : List Glyph) : Prop :=
  Plain.isIndicator g.char = false ∨ (g.char ∈ ['-', '?', ':'] ∧ atGap rest = false)

theorem StartsPlain.startsHere (h : StartsPlain g rest) (hblank : isBlank g.char = false)
    (hbreak : isBreak g.char = false) : Plain.startsHere false (g :: rest) = true := by
  rcases h with h | ⟨hmem, hgap⟩
  · simp [Plain.startsHere, h, hblank, hbreak]
  · have hrest : startsWith isBlank rest = false := by
      cases rest with
      | nil => rfl
      | cons d rest => exact (Bool.or_eq_false_iff.1 hgap).1
    simp only [List.mem_cons, List.not_mem_nil, or_false] at hmem
    rcases hmem with hc | hc | hc <;> simp [Plain.startsHere, hc, hrest, hgap]

/-- What starts as a scalar without quotes is read as one. -/
theorem StartsPlain.readToken (h : StartsPlain g rest) (hflow : s.inFlow = false)
    (hmarker : atDocumentMarker (g :: rest) = false) :
    s.readToken g rest = s.readPlain g (g :: rest) := by
  simp only [atDocumentMarker, Bool.or_eq_false_iff] at hmarker
  rcases h with h | ⟨hmem, hgap⟩
  · simp only [Plain.isIndicator, Plain.isFlowIndicator, Bool.or_eq_false_iff, beq_eq_false_iff_ne] at h
    obtain ⟨hbrackets, hothers⟩ := h
    have hne : ∀ d ∈ ['-', '?', ':', '*', '&', '!', '|', '>', '\'', '"', '%'], g.char ≠ d := by
      have hall : (['-', '?', ':', '*', '&', '!', '|', '>', '\'', '"', '%'].all
          "-?:#&*!|>'\"%@`".toList.contains) = true := by decide
      rintro d hd rfl
      rw [List.all_eq_true.1 hall _ hd] at hothers
      cases hothers
    simp only [List.forall_mem_cons] at hne
    simp [Layout.readToken, hmarker, hbrackets, hne]
  · simp only [List.mem_cons, List.not_mem_nil, or_false] at hmem
    rcases hmem with hc | hc | hc <;> simp [Layout.readToken, hmarker, hflow, hc, hgap]

/-! ## Blocks -/

/-- The layout outside of brackets where no key is possible. -/
def block (indents : List Nat) (allowed : Bool) (tokens : List Token) : Layout :=
  ⟨tokens, tokens.length, indents, allowed, none, []⟩

theorem block_dropDistantKeys (g : Glyph) :
    (block indents allowed tokens).dropDistantKeys g = some (block indents allowed tokens) :=
  rfl

/-- No block is closed for a token that lies in the innermost one. -/
theorem closeTo_eq_self (hs : s.inFlow = false) (h : ∀ n ∈ s.indents.head?, n ≤ column) :
    s.closeTo column = s := by
  obtain ⟨tokens, count, indents, allowed, key, outerKeys⟩ := s
  cases indents with
  | nil => simp [closeTo, hs, closeDeeper]
  | cons n outer => simp [closeTo, hs, closeDeeper, Nat.not_lt.2 (h n rfl)]

theorem block_closeTo {n : Nat} (hn : n ≤ column) :
    (block (n :: outer) allowed tokens).closeTo column = block (n :: outer) allowed tokens := by
  refine closeTo_eq_self rfl fun m hm => ?_
  obtain rfl := Option.some.inj hm
  exact hn

/-- A token at a place as a possible key. -/
def possibleKey (indents : List Nat) (allowed : Bool) (tokens : List Token) (g : Glyph) :
    Option PossibleKey :=
  if allowed then some ⟨indents.head? == some g.column, tokens.length, g.line, g.column⟩ else none

theorem block_node (g : Glyph) (t : Token) : (block indents allowed tokens).node g t =
    some ((block indents false (t :: tokens)).withKey (possibleKey indents allowed tokens g)) := by
  cases allowed <;> rfl

/-- Behind the line of a scalar no key is left of it. -/
theorem Alike.forget_block {n i : Nat} (hcolumn : n < g.column) (hline : g.line < i) {allowed' : Bool}
    {tokens' : List Token} (t : Text) :
    Alike ((block (n :: outer) allowed' tokens').withKey (possibleKey (n :: outer) allowed tokens g))
      (glyphsFrom i column t) (block (n :: outer) allowed' tokens') (glyphsFrom i column t) := by
  refine .forget fun p hp => ?_
  cases allowed with
  | false => simp [possibleKey, withKey] at hp
  | true =>
    obtain rfl := Option.some.inj hp
    refine ⟨beq_eq_false_iff_ne.2 fun heq => ?_, fun d hd => ?_⟩
    · exact Nat.ne_of_lt hcolumn (Option.some.inj heq)
    · exact Nat.lt_of_lt_of_le hline (line_le_of_mem_glyphsFrom hd)

end Layout

end Redeploy.Yaml
