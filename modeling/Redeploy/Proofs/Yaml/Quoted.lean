import Redeploy.Proofs.Text.Numeral
import Redeploy.Proofs.Yaml.Plain

set_option autoImplicit false

/-! # Scalars between quotes are read back

Between single quotes the breaks of a text stand at the ends of lines, and the spaces that its next lines
are indented with are no part of it (`Quoted.exists_single?`). Between double quotes everything is on one
line, with escapes for what cannot be written as it is (`Quoted.exists_double?`). -/

namespace Redeploy.Yaml

open Written

variable {line column indent steps : Nat} {c : Char} {b t u w read : Text} {gap : Gap} {ended : Bool}

theorem Written.allowsSingle_spec (h : allowsSingle t = true) : needsEscapes t = false ∧
    hasAdjacent isBreak (· == ' ') t = false := by
  simpa [allowsSingle] using h

namespace Quoted

/-! ## Single quotes -/

/-- What lies before a text between single quotes that is still to be read: blanks of its line, or, where a
    line has ended, breaks. -/
inductive Pending : Bool → Gap → Text → Prop
  | blanks {b t : Text} (h : b ≠ [] → ∀ c ∈ t.head?, isBreak c = false) : Pending false (.blanks b) t
  | breaks {first : Char} {more t : Text} (hfirst : first ≠ '\n') (h : ∀ c ∈ t.head?, c ≠ ' ') :
    Pending true (.breaks [first] more) t

/-- How deep the rest of a line is indented. -/
def indentation (indent : Nat) (ended : Bool) : Text :=
  List.replicate (if ended then indent else 0) ' '

theorem isBlank_of_isBreak (hc : isBreak c = true) : isBlank c = false := by
  simp only [isBreak, Bool.or_eq_true, beq_iff_eq] at hc
  rcases hc with (rfl | rfl) | rfl <;> rfl

theorem readSingle_break (hc : isBreak c = true) (gs : List Glyph) :
    readSingle (steps + 1) read gap (⟨c, line, column⟩ :: gs) =
      readSingle steps read (gap.addBreak c) gs := by
  rw [readSingle]
  simp only [isBlank_of_isBreak hc, hc, Bool.false_eq_true, if_false, if_true]

theorem readSingle_char (hblank : isBlank c = false) (hbreak : isBreak c = false) (hc : c ≠ '\'')
    (hcolumn : column ≠ 0) (gs : List Glyph) :
    readSingle (steps + 1) read gap (⟨c, line, column⟩ :: gs) =
      readSingle steps (c :: (gap.folded.reverse ++ read)) .none gs := by
  have hmarker := atDocumentMarker_of_column (g := ⟨c, line, column⟩) hcolumn gs
  rw [readSingle]
  simp only [hblank, hbreak, hmarker, hc, Bool.false_eq_true, if_false]

theorem readSingle_quote (hcolumn : column ≠ 0) (gs : List Glyph) :
    readSingle (steps + 1) read gap (⟨'\'', line, column⟩ :: gs) =
      if startsWith (fun c => c == '\'') gs then
        readSingle steps ('\'' :: (gap.folded.reverse ++ read)) .none (gs.drop 1)
      else some ((gap.folded.reverse ++ read).reverse, gs) := by
  have hmarker := atDocumentMarker_of_column (g := ⟨'\'', line, column⟩) hcolumn gs
  have hblank : isBlank '\'' = false := rfl
  have hbreak : isBreak '\'' = false := rfl
  rw [readSingle]
  simp only [hblank, hbreak, hmarker, Bool.false_eq_true, if_false, if_true]

theorem readSingle_spaces {first more : Text} (read : Text) (k line column : Nat)
    (hsteps : k + u.length < steps) :
    ∃ steps', u.length < steps' ∧ readSingle steps read (.breaks first more)
        (glyphsFrom line column (List.replicate k ' ' ++ u)) =
      readSingle steps' read (.breaks first more) (glyphsFrom line (column + k) u) := by
  induction k generalizing column steps with
  | zero => exact ⟨steps, by omega, rfl⟩
  | succ k ih =>
    obtain ⟨n, rfl⟩ : ∃ n, steps = n + 1 := ⟨steps - 1, by omega⟩
    have hrest : k + u.length < n := by omega
    obtain ⟨steps', hsteps', heq⟩ := ih (column + 1) hrest
    refine ⟨steps', hsteps', ?_⟩
    rw [List.replicate_succ, List.cons_append, glyphsFrom_cons rfl, readSingle]
    have hblank : isBlank ' ' = true := rfl
    simp only [hblank, if_true, Gap.addBlank]
    rw [heq, Nat.add_assoc, Nat.add_comm 1]

/-- The indentation of a line is no part of the scalar. -/
theorem readSingle_indentation (hindent : 0 < indent) (hgap : Pending ended gap t)
    (hcolumn : ended = false → column ≠ 0) (hsteps : (indentation indent ended ++ u).length < steps) :
    ∃ steps' column', u.length < steps' ∧ column' ≠ 0 ∧
      readSingle steps read gap (glyphsFrom line column (indentation indent ended ++ u)) =
        readSingle steps' read gap (glyphsFrom line column' u) := by
  cases hgap with
  | blanks => exact ⟨steps, column, hsteps, hcolumn rfl, rfl⟩
  | breaks =>
    rw [indentation, if_pos rfl, List.length_append, List.length_replicate] at hsteps
    obtain ⟨steps', hsteps', heq⟩ := readSingle_spaces read indent line column hsteps
    exact ⟨steps', _, hsteps', by omega, heq⟩

theorem singleFrom_of_not_break (hc : isBreak c = false) : singleFrom indent ended (c :: t) =
    indentation indent ended ++ ((if c = '\'' then ['\'', '\''] else [c]) ++ singleFrom indent false t) := by
  rw [singleFrom, hc, indentation]
  simp

theorem singleFrom_break (hc : isBreak c = true) :
    singleFrom indent ended (c :: t) = c :: singleFrom indent true t := by
  rw [singleFrom, hc]
  rfl

/-- A text between single quotes is read back, up to its closing quote. -/
theorem exists_readSingle (hindent : 0 < indent) (htab : ∀ c ∈ t, c ≠ '\t') (hline : '\n' ∉ t)
    (hbreaks : hasAdjacent (· == ' ') isBreak t = false)
    (hspaces : hasAdjacent isBreak (· == ' ') t = false) (hgap : Pending ended gap t)
    (hcolumn : ended = false → column ≠ 0) (hu : ∀ c ∈ u.head?, c ≠ '\'')
    (hsteps : (singleFrom indent ended t ++ u).length < steps) :
    ∃ line' column', line ≤ line' ∧
      readSingle steps read gap (glyphsFrom line column (singleFrom indent ended t ++ u)) =
        some (read.reverse ++ gap.folded ++ t, glyphsFrom line' column' u) := by
  induction t generalizing steps read gap ended line column with
  | nil =>
    rw [singleFrom, ← indentation, List.append_assoc] at hsteps ⊢
    obtain ⟨steps', column', hsteps', hcolumn', heq⟩ :=
      readSingle_indentation hindent hgap hcolumn hsteps
    obtain ⟨n, rfl⟩ : ∃ n, steps' = n + 1 := ⟨steps' - 1, by omega⟩
    have hquote : startsWith (fun c => c == '\'') (glyphsFrom line (column' + 1) u) = false := by
      cases u with
      | nil => rfl
      | cons d u => simpa [glyphsFrom, startsWith] using hu d rfl
    refine ⟨line, column' + 1, Nat.le_refl _, ?_⟩
    rw [heq, List.singleton_append, glyphsFrom_cons rfl, readSingle_quote hcolumn', hquote]
    simp
  | cons c t ih =>
    obtain ⟨hc, htabs⟩ := List.forall_mem_cons.1 htab
    obtain ⟨hcline, hlines⟩ : '\n' ≠ c ∧ '\n' ∉ t := by simpa using hline
    obtain ⟨hbreak, hbreaks'⟩ := hasAdjacent_cons.1 hbreaks
    obtain ⟨hspace, hspaces'⟩ := hasAdjacent_cons.1 hspaces
    by_cases hcbreak : isBreak c = true
    · -- the line ends, and what has been read of it ends in no blank
      rw [singleFrom_break hcbreak, List.cons_append] at hsteps ⊢
      obtain ⟨n, rfl⟩ : ∃ n, steps = n + 1 := ⟨steps - 1, by omega⟩
      have hnext : Pending true (gap.addBreak c) t ∧ (gap.addBreak c).folded = gap.folded ++ [c] := by
        have hhead : ∀ d ∈ t.head?, d ≠ ' ' := fun d hd => by simpa using hspace hcbreak d hd
        cases hgap with
        | @blanks b _ h =>
          have hb : b = [] := by
            cases b with
            | nil => rfl
            | cons => simpa [hcbreak] using h (List.cons_ne_nil _ _) c rfl
          subst hb
          exact ⟨.breaks hcline.symm hhead, by simp [Gap.addBreak, Gap.folded, hcline.symm]⟩
        | @breaks first more _ hfirst h =>
          exact ⟨.breaks hfirst hhead, by simp [Gap.addBreak, Gap.folded, hfirst]⟩
      have hih : ∃ line' column', line + 1 ≤ line' ∧
          readSingle n read (gap.addBreak c) (glyphsFrom (line + 1) 0 (singleFrom indent true t ++ u)) =
            some (read.reverse ++ (gap.addBreak c).folded ++ t, glyphsFrom line' column' u) :=
        ih htabs hlines hbreaks' hspaces' hnext.1 (by simp) (by simpa using hsteps)
      obtain ⟨line', column', hline', heq⟩ := hih
      refine ⟨line', column', by omega, ?_⟩
      rw [glyphsFrom_break hcbreak, readSingle_break hcbreak, heq, hnext.2]
      simp
    · have hcbreak : isBreak c = false := by simpa using hcbreak
      rw [singleFrom_of_not_break hcbreak, List.append_assoc] at hsteps ⊢
      obtain ⟨steps', column', hsteps', hcolumn', heq⟩ :=
        readSingle_indentation hindent hgap hcolumn hsteps
      obtain ⟨n, rfl⟩ : ∃ n, steps' = n + 1 := ⟨steps' - 1, by omega⟩
      -- a character is read on its line, behind what was pending
      have hih : ∀ read' b, (b ≠ [] → ∀ d ∈ t.head?, isBreak d = false) → ∀ m k,
          (singleFrom indent false t ++ u).length < m → k ≠ 0 → ∃ line' column', line ≤ line' ∧
            readSingle m read' (.blanks b) (glyphsFrom line k (singleFrom indent false t ++ u)) =
              some (read'.reverse ++ b ++ t, glyphsFrom line' column' u) :=
        fun _ _ hb _ _ hm hk => ih htabs hlines hbreaks' hspaces' (.blanks hb) (fun _ => hk) hm
      rw [heq]
      by_cases hquote : c = '\''
      · subst hquote
        simp only [if_true, List.cons_append, List.nil_append, List.length_cons] at hsteps' ⊢
        obtain ⟨line', column'', hline', hread⟩ := hih ('\'' :: (gap.folded.reverse ++ read)) [] (by simp)
          n (column' + 1 + 1) (by omega) (by omega)
        refine ⟨line', column'', hline', ?_⟩
        rw [glyphsFrom_cons rfl, readSingle_quote hcolumn', glyphsFrom_cons rfl]
        simp only [startsWith, beq_self_eq_true, if_true, List.drop_one, List.tail_cons]
        rw [show Gap.none = .blanks [] from rfl, hread]
        simp
      rw [if_neg hquote, List.singleton_append, List.cons_append] at hsteps' ⊢
      rw [List.length_cons] at hsteps'
      rw [glyphsFrom_cons hcbreak]
      by_cases hcspace : c = ' '
      · subst hcspace
        cases hgap with
        | breaks _ h => exact absurd rfl (h ' ' rfl)
        | @blanks b =>
          obtain ⟨line', column'', hline', hread⟩ := hih read (b ++ [' '])
            (fun _ d hd => by simpa using hbreak (by rfl) d hd) n (column' + 1) (by omega) (by omega)
          refine ⟨line', column'', hline', ?_⟩
          rw [readSingle]
          simpa [isBlank, Gap.addBlank, Gap.folded] using hread
      · have hblank : isBlank c = false := by simp [isBlank, hcspace, hc]
        obtain ⟨line', column'', hline', hread⟩ := hih (c :: (gap.folded.reverse ++ read)) [] (by simp)
          n (column' + 1) (by omega) (by omega)
        refine ⟨line', column'', hline', ?_⟩
        rw [readSingle_char hblank hcbreak hquote hcolumn', show Gap.none = .blanks [] from rfl, hread]
        simp

/-- A text that may be written between single quotes, and has no line feed, is read back. -/
theorem exists_single? (h : allowsSingle t = true) (hline : '\n' ∉ t) (hindent : 0 < indent)
    (hcolumn : column ≠ 0) (hu : ∀ c ∈ u.head?, c ≠ '\'') (line : Nat) : ∃ line' column', line ≤ line' ∧
      single? (glyphsFrom line column (singleFrom indent false t ++ u)) =
        some (t, glyphsFrom line' column' u) := by
  obtain ⟨hescapes, hspaces⟩ := Written.allowsSingle_spec h
  have hprint := isPrintable_of_needsEscapes hescapes
  have hbreaks : hasAdjacent (· == ' ') isBreak t = false := by
    simp only [needsEscapes, Bool.or_eq_false_iff] at hescapes
    exact hescapes.2
  have hgap : Pending false .none t := .blanks (by simp)
  exact exists_readSingle hindent (fun c hc => (isPrintable_spec (hprint c hc)).2.2.1) hline hbreaks
    hspaces hgap (fun _ => hcolumn) hu (by simp [length_glyphsFrom])

/-! ## Escapes -/

/-- What is read as an escape of a character, behind the backslash. -/
structure IsEscape (c : Char) (w : Text) : Prop where
  ne_nil : w ≠ []
  printable : ∀ d ∈ w, isPrintable d = true
  line : ∀ d ∈ w, isBreak d = false
  reads : ∀ line column u, readEscape (glyphsFrom line column (w ++ u)) =
    some (c, glyphsFrom line (column + w.length) u)

/-- Characters that are digits of some base. -/
theorem isPrintable_of_digitValue? {d : Nat} (h : digitValue? c = some d) :
    isPrintable c = true ∧ isBreak c = false := by
  have hcode : (48 ≤ c.toNat ∧ c.toNat ≤ 57) ∨ (97 ≤ c.toNat ∧ c.toNat ≤ 122) ∨
      (65 ≤ c.toNat ∧ c.toNat ≤ 90) := by
    simp only [digitValue?, Bool.and_eq_true, decide_eq_true_eq] at h
    repeat' split at h
    all_goals simp_all
  constructor
  · simp only [isPrintable, Bool.or_eq_true, Bool.and_eq_true, beq_iff_eq, decide_eq_true_eq]
    omega
  · have hne : ∀ e : Char, (e.toNat < 48 ∨ 122 < e.toNat) → c ≠ e := by
      rintro e he rfl
      omega
    simp [isBreak, hne '\n' (by decide), hne lineSeparator (by decide), hne paragraphSeparator (by decide)]

theorem exists_digitValue?_of_mem {base v w : Nat} (h : readDigits base v t = some w) (hc : c ∈ t) :
    ∃ d, digitValue? c = some d := by
  induction t generalizing v with
  | nil => simp at hc
  | cons e t ih =>
    rw [readDigits] at h
    split at h
    · next d hd =>
      split at h
      · rcases List.mem_cons.1 hc with rfl | hc
        · exact ⟨d, hd⟩
        · exact ih h hc
      · simp at h
    · simp at h

/-- The code point of a character in hexadecimal digits, as many as the letter of the escape asks for. -/
theorem isEscape_code {e : Char} {n : Nat} (he : escapeDigits? e = some n) (hn : 0 < n)
    (hprint : isPrintable e = true) (hline : isBreak e = false) (hc : c.toNat < Nat.pow 16 n) :
    IsEscape c (e :: hexDigits n c.toNat) := by
  have hlength : (hexDigits n c.toNat).length = n := by
    have hle := (Nat.length_toDigits_le_iff (n := c.toNat) (b := 16) (by omega) hn).2 hc
    simp [hexDigits]
    omega
  have hread : readNat? 16 (hexDigits n c.toNat) = some c.toNat := by
    rw [hexDigits, readNat?_zeros (by omega) (by simp)]
    exact readNat?_toDigits (by omega) (spells_toUpper (Nat.le_refl _)) _
  have hdigits : ∀ d ∈ hexDigits n c.toNat, isPrintable d = true ∧ isBreak d = false := by
    intro d hd
    rw [readNat?] at hread
    split at hread
    · simp at hread
    · obtain ⟨v, hv⟩ := exists_digitValue?_of_mem hread hd
      exact isPrintable_of_digitValue? hv
  refine ⟨List.cons_ne_nil _ _, List.forall_mem_cons.2 ⟨hprint, fun d hd => (hdigits d hd).1⟩,
    List.forall_mem_cons.2 ⟨hline, fun d hd => (hdigits d hd).2⟩, fun line column u => ?_⟩
  have hglyphs := glyphsFrom_append (fun d hd => (hdigits d hd).2) line (column + 1) u
  have htake : (glyphsFrom line (column + 1) (hexDigits n c.toNat)).length = n := by
    rw [length_glyphsFrom, hlength]
  rw [List.cons_append, glyphsFrom_cons hline, readEscape]
  simp only [he, hglyphs, List.take_left' htake, List.drop_left' htake, spelled_glyphsFrom, hlength,
    Nat.lt_irrefl, if_false, hread]
  have hvalid : c.toNat.isValidChar := c.valid
  simp [charOf?, hlength, hvalid, Nat.add_comm, Nat.add_left_comm]

/-- The letters that stand for characters. -/
theorem isEscape_letter {e : Char} (h : escapeLetter? c = some e) : IsEscape c [e] := by
  have hall : ([(Char.ofNat 0, '0'), (Char.ofNat 7, 'a'), (Char.ofNat 8, 'b'), ('\t', 't'), ('\n', 'n'),
      (Char.ofNat 11, 'v'), (Char.ofNat 12, 'f'), ('\r', 'r'), (Char.ofNat 27, 'e'), ('"', '"'),
      ('\\', '\\'), (nextLine, 'N'), (lineSeparator, 'L'), (paragraphSeparator, 'P')].all
        fun p => isPrintable p.2 && !isBreak p.2 && (escapeDigits? p.2).isNone &&
          simpleEscape? p.2 == some p.1) = true := by decide
  obtain ⟨front, rest, htable, -⟩ := List.lookup_eq_some_iff.1 h
  have hmem : (c, e) ∈ front ++ (c, e) :: rest := by simp
  rw [← htable] at hmem
  have hspec := List.all_eq_true.1 hall _ hmem
  simp only [Bool.and_eq_true, Bool.not_eq_true', Option.isNone_iff_eq_none, beq_iff_eq] at hspec
  obtain ⟨⟨⟨hprint, hline⟩, hdigits⟩, hletter⟩ := hspec
  refine ⟨List.cons_ne_nil _ _, List.forall_mem_singleton.2 hprint, List.forall_mem_singleton.2 hline,
    fun line column u => ?_⟩
  rw [List.singleton_append, glyphsFrom_cons hline, readEscape]
  simp only [hdigits, hletter]
  rfl

/-- A character is written as it is, or as an escape. -/
theorem escaped_cases (c : Char) :
    (escaped c = [c] ∧ isPrintable c = true ∧ isBreak c = false ∧ c ≠ '"' ∧ c ≠ '\\') ∨
      ∃ w, escaped c = '\\' :: w ∧ IsEscape c w := by
  rw [escaped]
  split
  · next e he => exact .inr ⟨[e], rfl, isEscape_letter he⟩
  · next hletter =>
    have hne : ∀ d, escapeLetter? d ≠ none → c ≠ d := by
      rintro d hd rfl
      exact hd hletter
    have hbreak : isBreak c = false := by
      simp [isBreak, hne '\n' (by decide), hne lineSeparator (by decide),
        hne paragraphSeparator (by decide)]
    split
    · next hprint =>
      exact .inl ⟨rfl, hprint, hbreak, hne _ (by decide), hne _ (by decide)⟩
    split
    · have hlt : c.toNat < 0x100 := by omega
      exact .inr ⟨_, rfl, isEscape_code rfl (by omega) rfl rfl hlt⟩
    split
    · have hlt : c.toNat < 0x10000 := by omega
      exact .inr ⟨_, rfl, isEscape_code rfl (by omega) rfl rfl hlt⟩
    · have hvalid : c.toNat.isValidChar := c.valid
      have hlt : c.toNat < 0x100000000 := by
        simp only [Nat.isValidChar] at hvalid
        omega
      exact .inr ⟨_, rfl, isEscape_code rfl (by omega) rfl rfl hlt⟩

/-! ## Double quotes -/

theorem readDouble_char (hblank : isBlank c = false) (hbreak : isBreak c = false) (hquote : c ≠ '"')
    (hbackslash : c ≠ '\\') (hcolumn : column ≠ 0) (gs : List Glyph) :
    readDouble (steps + 1) read gap (⟨c, line, column⟩ :: gs) =
      readDouble steps (c :: (gap.folded.reverse ++ read)) .none gs := by
  have hmarker := atDocumentMarker_of_column (g := ⟨c, line, column⟩) hcolumn gs
  rw [readDouble]
  simp only [hblank, hbreak, hmarker, hquote, hbackslash, Bool.false_eq_true, if_false]

theorem readDouble_quote (hcolumn : column ≠ 0) (gs : List Glyph) :
    readDouble (steps + 1) read gap (⟨'"', line, column⟩ :: gs) =
      some ((gap.folded.reverse ++ read).reverse, gs) := by
  have hmarker := atDocumentMarker_of_column (g := ⟨'"', line, column⟩) hcolumn gs
  have hblank : isBlank '"' = false := rfl
  have hbreak : isBreak '"' = false := rfl
  rw [readDouble]
  simp only [hblank, hbreak, hmarker, Bool.false_eq_true, if_false, if_true]

theorem readDouble_escape (hw : IsEscape c w) (hcolumn : column ≠ 0) :
    readDouble (steps + 1) read gap (glyphsFrom line column ('\\' :: (w ++ u))) =
      readDouble steps (c :: (gap.folded.reverse ++ read)) .none
        (glyphsFrom line (column + 1 + w.length) u) := by
  have hblank : isBlank '\\' = false := rfl
  have hbreak : isBreak '\\' = false := rfl
  have hquote : '\\' ≠ '"' := by decide
  rw [glyphsFrom_cons hbreak, readDouble]
  have hmarker := atDocumentMarker_of_column (g := ⟨'\\', line, column⟩) hcolumn
  have hstart : startsWith isBreak (glyphsFrom line (column + 1) (w ++ u)) = false := by
    obtain ⟨d, w, rfl⟩ := List.exists_cons_of_ne_nil hw.ne_nil
    exact hw.line d (List.mem_cons_self ..)
  simp only [hblank, hbreak, hmarker, hquote, hstart, hw.reads, Bool.false_eq_true, if_false, if_true]

/-- A text between double quotes is read back, up to its closing quote. -/
theorem exists_readDouble (hcolumn : column ≠ 0)
    (hsteps : (t.flatMap escaped ++ '"' :: u).length < steps) : ∃ column',
      readDouble steps read (.blanks b) (glyphsFrom line column (t.flatMap escaped ++ '"' :: u)) =
        some (read.reverse ++ b ++ t, glyphsFrom line column' u) := by
  induction t generalizing steps read b column with
  | nil =>
    obtain ⟨n, rfl⟩ : ∃ n, steps = n + 1 := ⟨steps - 1, by omega⟩
    refine ⟨column + 1, ?_⟩
    rw [List.flatMap_nil, List.nil_append, glyphsFrom_cons rfl, readDouble_quote hcolumn]
    simp [Gap.folded]
  | cons c t ih =>
    obtain ⟨n, rfl⟩ : ∃ n, steps = n + 1 := ⟨steps - 1, by omega⟩
    rw [List.flatMap_cons, List.append_assoc] at hsteps ⊢
    -- what comes behind the character, from any column
    have hrest : ∀ read' b' k, k ≠ 0 → ∃ column',
        readDouble n read' (.blanks b') (glyphsFrom line k (t.flatMap escaped ++ '"' :: u)) =
          some (read'.reverse ++ b' ++ t, glyphsFrom line column' u) := by
      intro read' b' k hk
      refine ih hk ?_
      have hne : escaped c ≠ [] := by
        rcases escaped_cases c with ⟨hc, -⟩ | ⟨w, hc, -⟩ <;> simp [hc]
      have hpos := List.length_pos_iff.2 hne
      rw [List.length_append] at hsteps
      omega
    rcases escaped_cases c with ⟨hc, hprint, hbreak, hquote, hbackslash⟩ | ⟨w, hc, hw⟩
    · rw [hc, List.singleton_append, glyphsFrom_cons hbreak]
      by_cases hspace : c = ' '
      · subst hspace
        obtain ⟨column', hread⟩ := hrest read (b ++ [' ']) (column + 1) (by omega)
        refine ⟨column', ?_⟩
        rw [readDouble]
        simpa [isBlank, Gap.addBlank] using hread
      · have hblank : isBlank c = false := by
          simp [isBlank, hspace, (isPrintable_spec hprint).2.2.1]
        obtain ⟨column', hread⟩ := hrest (c :: (b.reverse ++ read)) [] (column + 1) (by omega)
        refine ⟨column', ?_⟩
        rw [readDouble_char hblank hbreak hquote hbackslash hcolumn, show Gap.none = .blanks [] from rfl,
          Gap.folded, hread]
        simp
    · obtain ⟨column', hread⟩ := hrest (c :: (b.reverse ++ read)) [] (column + 1 + w.length) (by omega)
      refine ⟨column', ?_⟩
      rw [hc, List.cons_append, readDouble_escape hw hcolumn, show Gap.none = .blanks [] from rfl,
        Gap.folded, hread]
      simp

/-- Any text may be written between double quotes. -/
theorem exists_double? (hcolumn : column ≠ 0) (line : Nat) (t u : Text) : ∃ column',
    double? (glyphsFrom line column (t.flatMap escaped ++ '"' :: u)) =
      some (t, glyphsFrom line column' u) :=
  exists_readDouble hcolumn (by simp [length_glyphsFrom])

end Quoted

end Redeploy.Yaml
