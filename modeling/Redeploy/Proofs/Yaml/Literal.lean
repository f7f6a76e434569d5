import Redeploy.Proofs.Yaml.Plain

set_option autoImplicit false

/-! # Scalars of lines are read back

A text that is written as lines is read back with all its breaks (`Block.exists_read?`): the indentation of
its lines is no part of it, and the sign in the header says what becomes of the breaks at the end, of which
one is added where the text has none. -/

namespace Redeploy.Yaml

open Written

variable {line column indent inner k n : Nat} {b c : Char} {r t u v w : Text} {known : Option Nat}

/-! ## Lines -/

/-- A text of whole lines: it is empty or ends in a break. -/
def IsClosed (t : Text) : Prop := ∀ c ∈ t.getLast?, isBreak c = true

/-- A text that is not empty and does not end in a break. -/
def IsOpen (t : Text) : Prop := ∃ u c, t = u ++ [c] ∧ isBreak c = false

theorem isClosed_or_isOpen (t : Text) : IsClosed t ∨ IsOpen t := by
  cases h : t.getLast? with
  | none => exact .inl (by simp [IsClosed, h])
  | some c =>
    cases hc : isBreak c with
    | false =>
      obtain ⟨u, rfl⟩ := List.getLast?_eq_some_iff.1 h
      exact .inr ⟨u, c, rfl, hc⟩
    | true => exact .inl (by simpa [IsClosed, h] using hc)

theorem isOpen_line (hc : isBreak c = false) (hu : ∀ d ∈ u, isBreak d = false) (w : Text) :
    IsOpen (w ++ c :: u) := by
  have hlast := List.getLast_mem (List.cons_ne_nil c u)
  refine ⟨w ++ (c :: u).dropLast, (c :: u).getLast (List.cons_ne_nil c u), ?_, ?_⟩
  · rw [List.append_assoc, List.dropLast_concat_getLast]
  · have hall : ∀ d ∈ c :: u, isBreak d = false := List.forall_mem_cons.2 ⟨hc, hu⟩
    exact hall _ hlast

theorem IsClosed.of_append (h : IsClosed (u ++ t)) : IsClosed t := by
  intro c hc
  exact h c (by rw [List.getLast?_append, Option.mem_def.1 hc]; rfl)

/-- A text of lines begins with breaks, and then is at its end or has a line. -/
theorem exists_breaks (t : Text) : ∃ bs r, t = bs ++ r ∧ (∀ c ∈ bs, isBreak c = true) ∧
    ∀ c ∈ r.head?, isBreak c = false := by
  refine ⟨t.takeWhile isBreak, t.dropWhile isBreak, List.takeWhile_append_dropWhile.symm,
    List.all_eq_true.1 List.all_takeWhile, fun c hc => ?_⟩
  have hnot := List.head?_dropWhile_not isBreak t
  rwa [Option.mem_def.1 hc] at hnot

/-- A line that is closed goes up to a break. -/
theorem exists_line (h : IsClosed (c :: t)) (hc : isBreak c = false) : ∃ s b r, t = s ++ b :: r ∧
    (∀ d ∈ s, isBreak d = false) ∧ isBreak b = true ∧ IsClosed r := by
  have hs : ∀ d ∈ t.takeWhile (fun d => !isBreak d), isBreak d = false := fun d hd => by
    simpa using List.all_eq_true.1 List.all_takeWhile d hd
  have hsplit : t.takeWhile (fun d => !isBreak d) ++ t.dropWhile (fun d => !isBreak d) = t :=
    List.takeWhile_append_dropWhile
  cases hrest : t.dropWhile (fun d => !isBreak d) with
  | nil =>
    -- without a break the last character would be none
    rw [hrest, List.append_nil] at hsplit
    rw [hsplit] at hs
    have hlast := h _ (List.getLast?_eq_some_getLast (List.cons_ne_nil c t))
    rcases List.mem_cons.1 (List.getLast_mem (List.cons_ne_nil c t)) with heq | hmem
    · simp [heq, hc] at hlast
    · simp [hs _ hmem] at hlast
  | cons b r =>
    have hb := List.head?_dropWhile_not (fun d => !isBreak d) t
    rw [hrest] at hb hsplit
    refine ⟨_, b, r, hsplit.symm, hs, by simpa using hb, ?_⟩
    rw [← hsplit, ← List.singleton_append (x := b), ← List.append_assoc, ← List.cons_append] at h
    exact h.of_append

namespace Written

theorem literalLines_break (hc : isBreak c = true) (atStart : Bool) :
    literalLines indent atStart (c :: t) = c :: literalLines indent true t := by
  rw [literalLines, hc]
  rfl

theorem literalLines_breaks (h : ∀ c ∈ u, isBreak c = true) (t : Text) :
    literalLines indent true (u ++ t) = u ++ literalLines indent true t := by
  induction u with
  | nil => rfl
  | cons c u ih =>
    obtain ⟨hc, hu⟩ := List.forall_mem_cons.1 h
    rw [List.cons_append, literalLines_break hc, ih hu, List.cons_append]

theorem literalLines_start (hc : isBreak c = false) : literalLines indent true (c :: t) =
    List.replicate indent ' ' ++ c :: literalLines indent false t := by
  rw [literalLines, hc]
  rfl

theorem literalLines_line (h : ∀ c ∈ u, isBreak c = false) (hb : isBreak b = true) (t : Text) :
    literalLines indent false (u ++ b :: t) = u ++ b :: literalLines indent true t := by
  induction u with
  | nil => rw [List.nil_append, literalLines_break hb, List.nil_append]
  | cons c u ih =>
    obtain ⟨hc, hu⟩ := List.forall_mem_cons.1 h
    rw [List.cons_append, literalLines, hc]
    simp [ih hu]

/-- The last line is closed where it is not. -/
theorem literalLines_isOpen (h : IsOpen t) (atStart : Bool) :
    literalLines indent atStart t = literalLines indent atStart (t ++ ['\n']) := by
  obtain ⟨u, c, rfl, hc⟩ := h
  induction u generalizing atStart with
  | nil =>
    have hbreak : isBreak '\n' = true := rfl
    simp [literalLines, hc, hbreak]
  | cons d u ih =>
    rw [List.cons_append, List.cons_append, literalLines, literalLines, ih, ih]

end Written

/-! ## Indentation -/

namespace Block

theorem skipIndentation_cons (deepest : Nat) (breaks : Text) (g : Glyph) (gs : List Glyph) :
    skipIndentation known deepest breaks (g :: gs) =
      if g.char == ' ' && known.all (fun n => decide (g.column < n)) then
        skipIndentation known deepest breaks gs
      else if g.char == '\t' && known.all (fun n => decide (g.column < n)) then none
      else if isBreak g.char then
        skipIndentation known (max deepest g.column) (breaks ++ [g.char]) gs
      else some (max deepest g.column, breaks, g :: gs) := by
  cases known <;> rfl

theorem skipIndentation_breaks (h : ∀ c ∈ u, isBreak c = true) (deepest line : Nat) (breaks w : Text) :
    skipIndentation known deepest breaks (glyphsFrom line 0 (u ++ w)) =
      skipIndentation known deepest (breaks ++ u) (glyphsFrom (line + u.length) 0 w) := by
  induction u generalizing line breaks with
  | nil => simp
  | cons c u ih =>
    obtain ⟨hc, hu⟩ := List.forall_mem_cons.1 h
    have hblank : c ≠ ' ' ∧ c ≠ '\t' := by
      constructor <;> rintro rfl <;> exact absurd hc (by decide)
    rw [List.cons_append, glyphsFrom_break hc, skipIndentation_cons]
    simp [hblank, hc, ih hu, Nat.add_comm, Nat.add_left_comm]

theorem skipIndentation_spaces (hk : ∀ n ∈ known, column + k ≤ n) (deepest : Nat) (breaks w : Text) :
    skipIndentation known deepest breaks (glyphsFrom line column (List.replicate k ' ' ++ w)) =
      skipIndentation known deepest breaks (glyphsFrom line (column + k) w) := by
  induction k generalizing column with
  | zero => rfl
  | succ k ih =>
    have hwithin : known.all (fun n => decide (column < n)) = true := by
      simp only [Option.all_eq_true, decide_eq_true_eq]
      intro n hn
      have := hk n hn
      omega
    rw [List.replicate_succ, List.cons_append, glyphsFrom_cons rfl, skipIndentation_cons]
    simp only [hwithin, beq_self_eq_true, Bool.and_self, if_true]
    rw [ih (fun n hn => by have := hk n hn; omega), Nat.add_assoc, Nat.add_comm 1]

theorem skipIndentation_stop (hc : isBreak c = false) (h : isBlank c = false ∨ known = some column)
    (deepest : Nat) (breaks w : Text) :
    skipIndentation known deepest breaks (glyphsFrom line column (c :: w)) =
      some (max deepest column, breaks, glyphsFrom line column (c :: w)) := by
  rw [glyphsFrom_cons hc, skipIndentation_cons]
  rcases h with h | rfl
  · simp only [isBlank, Bool.or_eq_false_iff] at h
    simp [h, hc]
  · simp [hc]

/-- The indentation of a line with something on it is read, with the breaks of the empty lines before. -/
theorem skipIndentation_line (hu : ∀ d ∈ u, isBreak d = true) (hc : isBreak c = false)
    (h : known = some indent ∨ (known = none ∧ isBlank c = false)) (line : Nat) :
    skipIndentation known 0 [] (glyphsFrom line 0 (literalLines indent true (u ++ c :: r) ++ t)) =
      some (indent, u, glyphsFrom (line + u.length) indent (c :: (literalLines indent false r ++ t))) := by
  have hknown : ∀ n ∈ known, 0 + indent ≤ n := by
    rintro n hn
    rcases h with rfl | ⟨rfl, -⟩
    · obtain rfl := Option.some.inj hn
      omega
    · simp at hn
  have hstop : isBlank c = false ∨ known = some (0 + indent) := by
    rcases h with rfl | ⟨-, hblank⟩
    · simp
    · exact .inl hblank
  rw [literalLines_breaks hu, literalLines_start hc, List.append_assoc, List.append_assoc,
    List.cons_append, skipIndentation_breaks hu, skipIndentation_spaces hknown,
    skipIndentation_stop hc hstop]
  simp

/-- Behind the last line the next one is found, which does not lie as deep. -/
theorem exists_skipIndentation_end (hu : ∀ d ∈ u, isBreak d = true) (ht : Follows inner t)
    (hinner : inner ≤ indent) (line : Nat) : ∃ deepest rest,
      skipIndentation (some indent) 0 [] (glyphsFrom line 0 (literalLines indent true u ++ t)) =
        some (deepest, u, rest) ∧
      SkipsTo (glyphsFrom (line + u.length) 0 t) rest ∧ ∀ g ∈ rest.head?, g.column ≠ indent := by
  have hlines : literalLines indent true u = u := by
    rw [← List.append_nil u, literalLines_breaks hu]
    rfl
  rw [hlines, skipIndentation_breaks hu, List.nil_append]
  cases ht with
  | nothing => exact ⟨_, [], rfl, ⟨fun _ => rfl, Nat.le_refl _⟩, by simp⟩
  | @line k c t hk hblank hbreak =>
    have hle : ∀ n ∈ some indent, 0 + k ≤ n := by
      rintro n ⟨⟩
      omega
    rw [skipIndentation_spaces hle, skipIndentation_stop hbreak (.inl hblank)]
    refine ⟨_, _, rfl, .spaces _ 0 k _, fun g hg => ?_⟩
    rw [glyphsFrom_cons hbreak] at hg
    obtain rfl := Option.some.inj hg
    simp only
    omega

/-! ## The lines -/

theorem takeText_line (hu : ∀ d ∈ u, isBreak d = false) (hb : isBreak b = true) (line column : Nat)
    (w : Text) : takeText (fun c => !isBreak c) (glyphsFrom line column (u ++ b :: w)) =
      (u, glyphsFrom line (column + u.length) (b :: w)) := by
  induction u generalizing column with
  | nil => simp [takeText, glyphsFrom_break hb, hb, spelled]
  | cons c u ih =>
    obtain ⟨hc, hu⟩ := List.forall_mem_cons.1 hu
    have hrest := ih hu (column + 1)
    simp only [takeText, Prod.mk.injEq] at hrest ⊢
    rw [List.cons_append, glyphsFrom_cons hc]
    simp only [List.takeWhile_cons, List.dropWhile_cons, hc, Bool.not_false, if_true, hrest.2]
    rw [spelled, List.map_cons, ← spelled, hrest.1]
    simp [Nat.add_comm, Nat.add_left_comm]

/-- All that has been read. -/
def Lines.all (s : Lines) : Text := s.text ++ s.lastBreak ++ s.emptyLines

/-- One more line. -/
theorem readLines_line (hc : isBreak c = false) (hu : ∀ d ∈ u, isBreak d = false)
    (hb : isBreak b = true) (s : Lines) (steps line : Nat) (w : Text) :
    readLines true indent (steps + 1) s (glyphsFrom line indent (c :: (u ++ b :: w))) =
      match skipIndentation (some indent) 0 [] (glyphsFrom (line + 1) 0 w) with
      | none => none
      | some (_, emptyLines, rest) =>
        readLines true indent steps ⟨s.all ++ c :: u, [b], emptyLines, isBlank c⟩ rest := by
  have htake := takeText_line (List.forall_mem_cons.2 ⟨hc, hu⟩) hb line indent w
  rw [List.cons_append, glyphsFrom_cons hc] at htake
  rw [glyphsFrom_cons hc, readLines]
  have hjoint : s.joint true (isBlank c) = s.lastBreak ++ s.emptyLines := rfl
  have hall : s.text ++ s.joint true (isBlank c) = s.all := by
    rw [hjoint, Lines.all, List.append_assoc]
  simp only [if_true, htake, glyphsFrom_break hb, List.drop_one, List.tail_cons, hall]
  rfl

theorem readLines_stop {rest : List Glyph} (h : ∀ g ∈ rest.head?, g.column ≠ indent) (s : Lines)
    (steps : Nat) : readLines true indent steps s rest = some (s, rest) := by
  cases steps with
  | zero => rfl
  | succ steps =>
    cases rest with
    | nil => rfl
    | cons g rest => simp [readLines, h g rfl]

/-- Some line has been read, and only empty ones since. -/
structure Lines.Ended (s : Lines) : Prop where
  text : IsOpen s.text
  lastBreak : ∃ b, isBreak b = true ∧ s.lastBreak = [b]
  emptyLines : ∀ c ∈ s.emptyLines, isBreak c = true

/-- The lines of a closed text are read up to the next line that does not lie as deep. -/
theorem exists_readLines (hclosed : IsClosed (c :: r)) (hc : isBreak c = false) (ht : Follows inner t)
    (hinner : inner ≤ indent) (s : Lines) {steps : Nat}
    (hsteps : (c :: (literalLines indent false r ++ t)).length < steps) (line : Nat) :
    ∃ s' rest line', readLines true indent steps s
        (glyphsFrom line indent (c :: (literalLines indent false r ++ t))) = some (s', rest) ∧
      s'.all = s.all ++ c :: r ∧ s'.Ended ∧ line < line' ∧ SkipsTo (glyphsFrom line' 0 t) rest := by
  induction hn : r.length using Nat.strongRecOn generalizing r c s steps line with
  | ind n ih =>
    obtain ⟨u, b, r, rfl, hu, hb, hr⟩ := exists_line hclosed hc
    obtain ⟨m, rfl⟩ : ∃ m, steps = m + 1 := ⟨steps - 1, by omega⟩
    have hopen : IsOpen (s.all ++ c :: u) := isOpen_line hc hu _
    rw [literalLines_line hu hb, List.append_assoc, List.cons_append] at hsteps ⊢
    rw [readLines_line hc hu hb]
    obtain ⟨bs, r, rfl, hbs, hhead⟩ := exists_breaks r
    cases r with
    | nil =>
      rw [List.append_nil]
      obtain ⟨deepest, rest, hskip, hrest, hstop⟩ :=
        exists_skipIndentation_end hbs ht hinner (line + 1)
      rw [hskip]
      exact ⟨_, rest, line + 1 + bs.length, readLines_stop hstop _ m, by simp [Lines.all],
        ⟨hopen, ⟨b, hb, rfl⟩, hbs⟩, by omega, hrest⟩
    | cons c' r =>
      have hc' := hhead c' rfl
      have hlength : (c' :: (literalLines indent false r ++ t)).length < m := by
        rw [literalLines_breaks hbs, literalLines_start hc'] at hsteps
        simp only [List.length_cons, List.length_append] at hsteps ⊢
        omega
      rw [skipIndentation_line hbs hc' (.inl rfl)]
      obtain ⟨s', rest, line', hread, hall, hended, hline, hrest⟩ :=
        ih r.length (by simp at hn; omega) hr.of_append hc'
          ⟨s.all ++ c :: u, [b], bs, isBlank c⟩ hlength (line + 1 + bs.length) rfl
      exact ⟨s', rest, line', hread, by rw [hall]; simp [Lines.all], hended, by omega, hrest⟩

/-! ## The header -/

/-- The signs of a header. -/
inductive Sign : Text → Chomping → Prop
  | strip : Sign ['-'] .strip
  | clip : Sign [] .clip
  | keep : Sign ['+'] .keep

/-- What a header says about the indentation. -/
inductive Digit : Text → Option Nat → Prop
  | none : Digit [] none
  | two : Digit ['2'] (some 2)

theorem readHeader_eq {chomping : Chomping} {digit : Option Nat} (hu : Digit u digit) (hv : Sign v chomping)
    (line column : Nat) (w : Text) :
    readHeader (glyphsFrom line column (u ++ v ++ '\n' :: w)) =
      some (⟨chomping, digit⟩, glyphsFrom (line + 1) 0 w) := by
  cases hu <;> cases hv <;> rfl

/-- An open text with breaks behind it is put together in one way only. -/
theorem isOpen_unique (hu : IsOpen u) (hv : ∀ c ∈ v, isBreak c = true) (ht : IsOpen t)
    (hw : ∀ c ∈ w, isBreak c = true) (h : u ++ v = t ++ w) : u = t ∧ v = w := by
  have hmiddle : ∀ {x y : Text}, IsOpen (x ++ y) → (∀ c ∈ y, isBreak c = true) → y = [] := by
    rintro x y ⟨z, c, heq, hc⟩ hy
    cases hlast : y.getLast? with
    | none => exact List.getLast?_eq_none_iff.1 hlast
    | some d =>
      have hxy : (x ++ y).getLast? = some d := by rw [List.getLast?_append, hlast]; rfl
      rw [heq, List.getLast?_concat] at hxy
      obtain rfl := Option.some.inj hxy
      exact absurd (hy c (List.mem_of_getLast? hlast)) (by simp [hc])
  rcases List.append_eq_append_iff.1 h with ⟨as, rfl, rfl⟩ | ⟨bs, rfl, rfl⟩
  · obtain rfl := hmiddle ht fun c hc => hv c (List.mem_append_left _ hc)
    simp
  · obtain rfl := hmiddle hu fun c hc => hw c (List.mem_append_left _ hc)
    simp

/-- The sign of a text that is not closed takes away the break that is added. -/
theorem sign_isOpen (h : IsOpen t) : Sign (chompingSign t) .strip := by
  obtain ⟨u, c, rfl, hc⟩ := h
  have hsign : chompingSign (u ++ [c]) = ['-'] := by simp [chompingSign, hc]
  rw [hsign]
  exact .strip

theorem sign_one (h : IsOpen u) (hb : isBreak b = true) : Sign (chompingSign (u ++ [b])) .clip := by
  obtain ⟨v, c, rfl, hc⟩ := h
  have hsign : chompingSign (v ++ [c] ++ [b]) = [] := by simp [chompingSign, hb, hc]
  rw [hsign]
  exact .clip

theorem sign_more (h : IsClosed u) (hb : isBreak b = true) : Sign (chompingSign (u ++ [b])) .keep := by
  have hall : u.getLast?.all isBreak = true := by
    rw [Option.all_eq_true]
    exact h
  have hsign : chompingSign (u ++ [b]) = ['+'] := by simp [chompingSign, hb, hall]
  rw [hsign]
  exact .keep

/-! ## The whole scalar -/

/-- How the text of a scalar comes out of what is read of it. -/
theorem chomp_eq (ht : t ≠ []) {s : Lines} (hs : s.Ended)
    (hall : (IsClosed t ∧ s.all = t) ∨ (IsOpen t ∧ s.all = t ++ ['\n'])) :
    ∃ chomping, Sign (chompingSign t) chomping ∧ s.chomp chomping = t := by
  obtain ⟨hopen, ⟨b', hb', hlast⟩, hempty⟩ := hs
  have hbreaks : ∀ c ∈ s.lastBreak ++ s.emptyLines, isBreak c = true := by
    rw [hlast]
    exact List.forall_mem_cons.2 ⟨hb', hempty⟩
  rcases hall with ⟨hclosed, hall⟩ | ⟨hopen', hall⟩
  · obtain ⟨u, b, rfl⟩ : ∃ u b, t = u ++ [b] :=
      ⟨_, _, (List.dropLast_concat_getLast ht).symm⟩
    have hb : isBreak b = true := hclosed b List.getLast?_concat
    rcases isClosed_or_isOpen u with hu | hu
    · exact ⟨_, sign_more hu hb, hall⟩
    · rw [Lines.all, List.append_assoc] at hall
      obtain ⟨htext, hrest⟩ :=
        isOpen_unique hopen hbreaks hu (List.forall_mem_singleton.2 hb) hall
      rw [hlast, List.singleton_append] at hrest
      refine ⟨_, sign_one hu hb, ?_⟩
      rw [Lines.chomp, htext, hlast, (List.cons.inj hrest).1]
  · rw [Lines.all, List.append_assoc] at hall
    exact ⟨_, sign_isOpen hopen',
      (isOpen_unique hopen hbreaks hopen' (List.forall_mem_singleton.2 rfl) hall).1⟩

/-- The lines are read, and the breaks of a text that has nothing else. -/
theorem exists_lines (hclosed : IsClosed t) (hknown : known = some indent ∨
      (known = none ∧ ∃ c r, t = c :: r ∧ isBreak c = false ∧ isBlank c = false))
    (hinner : inner ≤ indent) (hu : Follows inner u) (line : Nat) : ∃ deepest emptyLines rest,
      skipIndentation known 0 [] (glyphsFrom line 0 (literalLines indent true t ++ u)) =
        some (deepest, emptyLines, rest) ∧ (known = none → deepest = indent) ∧
      ∃ s rest' line', readLines true indent (rest.length + 1) ⟨[], [], emptyLines, false⟩ rest =
          some (s, rest') ∧ line ≤ line' ∧ SkipsTo (glyphsFrom line' 0 u) rest' ∧ s.all = t ∧
        (s.Ended ∨ (s = ⟨[], [], t, false⟩ ∧ ∀ c ∈ t, isBreak c = true)) := by
  obtain ⟨bs, r, rfl, hbs, hhead⟩ := exists_breaks t
  cases r with
  | nil =>
    rw [List.append_nil] at hknown ⊢
    obtain rfl : known = some indent := by
      rcases hknown with h | ⟨-, c, r, rfl, hc, -⟩
      · exact h
      · simp [hbs c] at hc
    obtain ⟨deepest, rest, hskip, hrest, hstop⟩ := exists_skipIndentation_end hbs hu hinner line
    exact ⟨deepest, bs, rest, hskip, by simp, _, rest, _, readLines_stop hstop _ _, Nat.le_add_right _ _,
      hrest, rfl, .inr ⟨rfl, hbs⟩⟩
  | cons c r =>
    have hc := hhead c rfl
    have hknown' : known = some indent ∨ (known = none ∧ isBlank c = false) := by
      refine hknown.imp_right fun ⟨hnone, d, r', heq, hd, hblank⟩ => ⟨hnone, ?_⟩
      cases bs with
      | nil =>
        obtain ⟨rfl, -⟩ := List.cons.inj heq
        exact hblank
      | cons b bs =>
        obtain ⟨rfl, -⟩ := List.cons.inj heq
        simp [hbs b] at hd
    obtain ⟨s, rest, line', hread, hall, hended, hline, hrest⟩ := exists_readLines hclosed.of_append hc hu
      hinner ⟨[], [], bs, false⟩ (Nat.lt_succ_self _) (line + bs.length)
    refine ⟨indent, bs, _, skipIndentation_line hbs hc hknown' line, fun _ => rfl, s, rest, line', ?_,
      by omega, hrest, by rw [hall]; simp [Lines.all], .inl hended⟩
    rw [length_glyphsFrom]
    exact hread

/-- The same for what is read of a text that may have nothing but breaks. -/
theorem exists_chomp (ht : t ≠ []) {s : Lines} (hall : s.all = v)
    (hs : s.Ended ∨ (s = ⟨[], [], v, false⟩ ∧ ∀ c ∈ v, isBreak c = true))
    (hv : (IsClosed t ∧ v = t) ∨ (IsOpen t ∧ v = t ++ ['\n'])) :
    ∃ chomping, Sign (chompingSign t) chomping ∧ s.chomp chomping = t := by
  rcases hs with hended | ⟨rfl, hbreaks⟩
  · rw [← hall] at hv
    exact chomp_eq ht hended hv
  · rcases hv with ⟨hclosed, rfl⟩ | ⟨⟨u, c, rfl, hc⟩, rfl⟩
    · obtain ⟨u, b, rfl⟩ : ∃ u b, v = u ++ [b] :=
        ⟨_, _, (List.dropLast_concat_getLast ht).symm⟩
      have hu : IsClosed u := fun c hc =>
        hbreaks c (List.mem_append_left _ (List.mem_of_getLast? (Option.mem_def.1 hc)))
      exact ⟨_, sign_more hu (hbreaks b (by simp)), rfl⟩
    · exact absurd (hbreaks c (by simp)) (by simp [hc])

/-- A text that may be written as lines is read back. -/
theorem exists_read? (h : allowsLiteral t = true) (ht : t ≠ []) (hinner : inner ≤ n + 2)
    (hu : Follows inner u) (outer : List Nat) (line column : Nat) : ∃ rest line',
      read? true (n :: outer) inner (glyphsFrom line column ((literal (n + 2) t).tail ++ u)) =
        some (t, rest) ∧ line < line' ∧ SkipsTo (glyphsFrom line' 0 u) rest := by
  have hblank : ∀ c ∈ t, isBlank c = true → c = ' ' := by
    simp only [allowsLiteral, Bool.not_eq_true', Bool.or_eq_false_iff] at h
    intro c hc hcblank
    have htab := (isPrintable_spec (isPrintable_of_needsEscapes h.1 c hc)).2.2.1
    simpa [isBlank, htab] using hcblank
  -- the lines are those of the text with its last line closed
  obtain ⟨v, hlines, hclosed, hv, hhead⟩ : ∃ v, literalLines (n + 2) true t =
      literalLines (n + 2) true v ∧ IsClosed v ∧ ((IsClosed t ∧ v = t) ∨ (IsOpen t ∧ v = t ++ ['\n'])) ∧
        v.head? = t.head? := by
    rcases isClosed_or_isOpen t with hclosed | hopen
    · exact ⟨t, rfl, hclosed, .inl ⟨hclosed, rfl⟩, rfl⟩
    · refine ⟨t ++ ['\n'], literalLines_isOpen hopen true, ?_, .inr ⟨hopen, rfl⟩, ?_⟩
      · intro c hc
        rw [List.getLast?_concat, Option.mem_some_iff] at hc
        rw [← hc]
        rfl
      · obtain ⟨c, r, rfl⟩ := List.exists_cons_of_ne_nil ht
        rfl
  -- either the header has the digit, or the first line shows how deep it is indented
  obtain ⟨digit, known, hdigit, hknown, hfirst⟩ : ∃ digit known,
      Digit (if t.head?.any fun c => c == ' ' || isBreak c then ['2'] else []) digit ∧
        (digit.map fun d => (n :: outer).headD 0 + d) = known ∧ (known = some (n + 2) ∨
          (known = none ∧ ∃ c r, v = c :: r ∧ isBreak c = false ∧ isBlank c = false)) := by
    cases hfirst : t.head?.any fun c => c == ' ' || isBreak c with
    | true => exact ⟨_, _, .two, rfl, .inl rfl⟩
    | false =>
      obtain ⟨c, r, rfl⟩ := List.exists_cons_of_ne_nil ht
      obtain ⟨r', rfl⟩ := List.head?_eq_some_iff.1 hhead
      simp only [List.head?_cons, Option.any_some, Bool.or_eq_false_iff, beq_eq_false_iff_ne] at hfirst
      refine ⟨_, _, .none, rfl, .inr ⟨rfl, c, r', rfl, hfirst.2, ?_⟩⟩
      exact Bool.eq_false_iff.2 fun hcblank => hfirst.1 (hblank c (by simp) hcblank)
  obtain ⟨deepest, emptyLines, rest, hskip, hdeepest, s, rest', line', hread, hline, hrest, hall, hended⟩ :=
    exists_lines hclosed hfirst hinner hu (line + 1)
  obtain ⟨chomping, hsign, hchomp⟩ := exists_chomp ht hall hended hv
  have hheader := readHeader_eq hdigit hsign line column (literalLines (n + 2) true t ++ u)
  have hindent : known.getD (max (max deepest inner) 1) = n + 2 := by
    rcases hfirst with rfl | ⟨rfl, -⟩
    · rfl
    · have := hdeepest rfl
      rw [Option.getD_none]
      omega
  have htail : (literal (n + 2) t).tail ++ u =
      (if t.head?.any fun c => c == ' ' || isBreak c then ['2'] else []) ++ chompingSign t ++
        '\n' :: (literalLines (n + 2) true t ++ u) := by
    simp [literal, literalHeader]
  refine ⟨rest', line', ?_, by omega, hrest⟩
  rw [htail, read?, hheader]
  simp only [Option.bind_eq_bind, Option.bind_some, hknown, hlines, hskip, hindent, hread, hchomp,
    Option.pure_def]

end Block

end Redeploy.Yaml
