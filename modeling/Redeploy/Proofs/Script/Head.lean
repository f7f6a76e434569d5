import Redeploy.Proofs.Syntax.Parsed
import Redeploy.Proofs.Syntax.Scan
import Redeploy.Script.Insertion

set_option autoImplicit false

/-! # The head lines of a script

The head lines are comments, so no statement begins in front of their end (`headEnd_le_of_parse`). For
that the scan is followed through what it skips (`Skips`): blanks, a comment, the end of a line. -/

namespace Redeploy

theorem parse_of_read {file : String} {source : Text} {script : Script}
    (h : Script.read file source = .ok script) :
    Syntax.parse source = .ok script.root ∧ script.source = source ∧ script.file = file := by
  unfold Script.read at h
  split at h
  · next root hroot =>
    rw [Except.ok.injEq] at h
    subst h
    exact ⟨hroot, rfl, rfl⟩
  · simp at h

namespace Script

open Syntax

/-! ## Blank characters and the scan -/

/-- Blank characters that are no gaps between marks. -/
def strangeBlanks : List Nat :=
  [0x85, 0xA0, 0x1680, 0x2000, 0x2001, 0x2002, 0x2003, 0x2004, 0x2005, 0x2006, 0x2007, 0x2008,
    0x2009, 0x200A, 0x2028, 0x2029, 0x202F, 0x205F, 0x3000]

theorem isGap_or_strange_of_isBlankChar {c : Char} (h : isBlankChar c = true) (hc : c ≠ '\n') :
    isGap c = true ∨ (128 ≤ c.toNat ∧ isGap c = false ∧ startsIdentifier c = false) := by
  have hline : c.toNat ≠ 10 := by
    intro h10
    exact hc (by rw [← Char.ofNat_toNat c, h10])
  have hstrange : ∀ n ∈ strangeBlanks, 128 ≤ (Char.ofNat n).toNat ∧ isGap (Char.ofNat n) = false ∧
      startsIdentifier (Char.ofNat n) = false := by decide +kernel
  have hmem : c.toNat ∈ strangeBlanks ∨ isGap c = true := by
    simp only [isBlankChar, Bool.or_eq_true, Bool.and_eq_true, decide_eq_true_eq, beq_iff_eq] at h
    simp only [strangeBlanks, List.mem_cons, List.not_mem_nil, isGap, Bool.or_eq_true,
      decide_eq_true_eq]
    omega
  rcases hmem with hmem | hgap
  · right
    have := hstrange c.toNat hmem
    rwa [Char.ofNat_toNat] at this
  · exact .inl hgap

/-- A lexeme that is no mark of the language. -/
def IsSilent (l : Lexeme) : Prop := ∀ kind, l.kind = .token kind → kind = .bad

/-- Of a text that begins in code, the scan reads a first part as lexemes that are no marks of the
    language, and goes on in code with the rest. -/
def Skips (l r : Text) : Prop :=
  ∀ steps, (l ++ r).length ≤ steps → ∃ ls steps',
    scanWith steps [] (l ++ r) = ls ++ scanWith steps' [] r ∧ r.length ≤ steps' ∧
      ls.flatMap Lexeme.text = l ∧ ∀ x ∈ ls, IsSilent x

theorem Skips.nil (r : Text) : Skips [] r :=
  fun steps hsteps => ⟨[], steps, rfl, hsteps, rfl, by simp⟩

theorem Skips.append {l m r : Text} (hl : Skips l (m ++ r)) (hm : Skips m r) : Skips (l ++ m) r := by
  intro steps hsteps
  rw [List.append_assoc] at hsteps ⊢
  obtain ⟨ls, steps', hscan, hle, htext, hls⟩ := hl steps hsteps
  obtain ⟨ms, steps'', hscan', hle', htext', hms⟩ := hm steps' hle
  refine ⟨ls ++ ms, steps'', ?_, hle', by simp [htext, htext'], List.forall_mem_append.2 ⟨hls, hms⟩⟩
  rw [hscan, hscan', List.append_assoc]

theorem skips_of_nextLexeme {g r : Text} {kind : LexemeKind} (hne : g ≠ [])
    (hnext : nextLexeme [] (g ++ r) = (kind, g.length, [])) (hsilent : IsSilent ⟨kind, g⟩) :
    Skips g r := by
  intro steps hsteps
  have hpos : 0 < g.length := List.length_pos_iff.2 hne
  rw [List.length_append] at hsteps
  obtain ⟨steps, rfl⟩ : ∃ k, steps = k + 1 := ⟨steps - 1, by omega⟩
  exact ⟨[⟨kind, g⟩], steps, scanWith_cons hne hnext, by omega, by simp, by simpa using hsilent⟩

theorem skips_lineBreak (r : Text) : Skips ['\n'] r :=
  skips_of_nextLexeme (by simp) rfl (by simp [IsSilent])

theorem skips_comment {c r : Text} (hc : '\n' ∉ c) (hr : ∀ b, r.head? = some b → b = '\n') :
    Skips ('#' :: c) r := by
  have hlength : runLength (fun d => d != '\n') ('#' :: c ++ r) = ('#' :: c).length := by
    refine runLength_append ?_ ?_
    · intro d hd
      rw [bne_iff_ne]
      rintro rfl
      simp [hc] at hd
    · intro d hd
      simp [hr d hd]
  have hnext : nextLexeme [] ('#' :: c ++ r) = (.comment, ('#' :: c).length, []) := by
    rw [← hlength]
    rfl
  exact skips_of_nextLexeme (by simp) hnext (by simp [IsSilent])

theorem nextLexeme_blank {g r : Text} (hne : g ≠ []) (hg : ∀ b ∈ g, isGap b = true ∧ b ≠ '\n')
    (hr : ∀ b, r.head? = some b → isGap b = false) :
    nextLexeme [] (g ++ r) = (.blank, g.length, []) := by
  rw [← runLength_append (fun b hb => (hg b hb).1) hr]
  cases g with
  | nil => exact absurd rfl hne
  | cons b g =>
    have hb := hg b (List.mem_cons_self ..)
    simp [nextLexeme, nextInCode, hb.1, hb.2]

/-- The first blanks of a line make a lexeme that is no mark of the language. -/
theorem exists_nextLexeme_of_blank {b : Char} {w r : Text}
    (hw : ∀ d ∈ b :: w, isBlankChar d = true ∧ d ≠ '\n')
    (hr : ∀ d, r.head? = some d → isGap d = false) :
    ∃ g w', b :: w = g ++ w' ∧ g ≠ [] ∧ ∃ kind,
      nextLexeme [] (g ++ (w' ++ r)) = (kind, g.length, []) ∧ IsSilent ⟨kind, g⟩ := by
  have hb := hw b (List.mem_cons_self ..)
  rcases isGap_or_strange_of_isBlankChar hb.1 hb.2 with hgap | ⟨hc, hgap, hstart⟩
  · refine ⟨(b :: w).takeWhile isGap, (b :: w).dropWhile isGap, by simp, by simp [hgap], .blank,
      nextLexeme_blank (by simp [hgap]) ?_ ?_, by simp [IsSilent]⟩
    · intro d hd
      exact ⟨List.all_eq_true.1 List.all_takeWhile d hd, (hw d ((List.takeWhile_prefix isGap).subset hd)).2⟩
    · intro d hd
      cases hdrop : (b :: w).dropWhile isGap with
      | nil =>
        rw [hdrop, List.nil_append] at hd
        exact hr d hd
      | cons e w' =>
        rw [hdrop, List.cons_append, List.head?_cons, Option.some.injEq] at hd
        have := List.head?_dropWhile_not isGap (b :: w)
        simpa [hdrop, hd] using this
  · refine ⟨[b], w, rfl, by simp, .token .bad, ?_, by simp [IsSilent]⟩
    exact nextInCode_strange hc hgap hstart

/-- The scan skips what is blank at the start of a line. -/
theorem skips_blanks {w r : Text} (hw : ∀ b ∈ w, isBlankChar b = true ∧ b ≠ '\n')
    (hr : ∀ b, r.head? = some b → isGap b = false) : Skips w r := by
  induction hn : w.length using Nat.strongRecOn generalizing w with
  | _ n ih =>
    cases w with
    | nil => exact Skips.nil r
    | cons b w =>
      -- the first blanks make one lexeme, and the rest is shorter
      obtain ⟨g, w', hsplit, hne, kind, hnext, hsilent⟩ := exists_nextLexeme_of_blank hw hr
      have hpos : 0 < g.length := List.length_pos_iff.2 hne
      have hlength := congrArg List.length hsplit
      rw [List.length_append] at hlength
      rw [hsplit] at hw ⊢
      exact (skips_of_nextLexeme hne hnext hsilent).append
        (ih w'.length (by omega) (fun b hb => hw b (List.mem_append_right g hb)) rfl)

/-- The scan skips a line that is blank up to a hash sign. -/
theorem skips_commentLine {w c r : Text} (hw : ∀ b ∈ w, isBlankChar b = true ∧ b ≠ '\n')
    (hc : '\n' ∉ c) (hr : ∀ b, r.head? = some b → b = '\n') : Skips (w ++ '#' :: c) r :=
  (skips_blanks hw (by simp [isGap])).append (skips_comment hc hr)

/-! ## What is skipped -/

/-- No mark of the language begins in what the scan skips. -/
theorem Skips.le_of_mem_placedLexemes {l r : Text} (h : Skips l r) {p : Placed}
    (hp : p ∈ placedLexemes (l ++ r)) (hmark : ¬ IsSilent p.lexeme) : l.size ≤ p.span.startByte := by
  obtain ⟨ls, steps', hscan, -, htext, hls⟩ := h _ (Nat.le_refl _)
  rw [placedLexemes, scan, hscan, placeFrom_append, List.mem_append] at hp
  rcases hp with hp | hp
  · exact absurd (hls _ (lexeme_mem_of_mem_placeFrom hp)) hmark
  · have := ((cover_placeFrom _ _).start_le hp).1
    rw [Position.afterText_byte, htext] at this
    exact Nat.le_trans (Nat.le_add_left ..) this

theorem Skips.le_of_mem_tokensOf {l r : Text} {ps : List Placed} (h : Skips l r)
    (hps : Mended (l ++ r) ps) (hbad : ∀ t ∈ tokensOf ps, t.kind ≠ .bad) :
    ∀ t ∈ tokensOf ps, l.size ≤ t.span.startByte ∧ l.size ≤ t.span.endByte := by
  have hwritten : ∀ p ∈ ps, ∀ kind, p.lexeme.kind = .token kind → p.lexeme.text ≠ [] →
      l.size ≤ p.span.startByte ∧ l.size ≤ p.span.endByte := by
    intro p hp kind hkind htext
    have hplaced : p ∈ placedLexemes (l ++ r) := by
      rw [← hps.written]
      exact List.mem_filter.2 ⟨hp, by simpa using htext⟩
    have hstart := h.le_of_mem_placedLexemes hplaced fun hsilent =>
      hbad _ (mem_layout_of_mem hp hkind) (hsilent kind hkind)
    exact ⟨hstart, Nat.le_trans hstart (hps.cover.start_le hp).2⟩
  refine forall_bounds_layout (by simp [LineState.start]) fun p hp kind hkind => ?_
  by_cases htext : p.lexeme.text = []
  · obtain ⟨-, hspan, q, hq, kind', hkind', hqtext, hqend⟩ := hps.added p hp htext
    rw [← hspan, ← hqend]
    exact ⟨(hwritten q hq kind' hkind' hqtext).2, (hwritten q hq kind' hkind' hqtext).2⟩
  · exact hwritten p hp kind hkind htext

/-- No statement of a script begins in what the scan skips. -/
theorem Skips.le_of_parse {l r : Text} {root : Tree} (h : Skips l r) (hp : parse (l ++ r) = .ok root) :
    ∀ t ∈ root.children, ∀ x ∈ t.nodes, l.size ≤ x.span.startByte := by
  obtain ⟨ps, us, k, hps, hus, hreads⟩ := exists_reads_of_parse hp
  have hbad : ∀ t ∈ tokensOf ps, t.kind ≠ .bad := by
    intro t ht
    rw [← hus] at ht
    obtain ⟨u, hu, rfl⟩ := List.mem_map.1 ht
    exact hreads.kind_ne_bad rfl u hu
  have hbounds := h.le_of_mem_tokensOf hps hbad
  intro t ht x hx
  refine (hreads.forall_bounds (C := fun n => l.size ≤ n) ?_ (by simp) x
    (Tree.mem_nodesAll.2 ⟨t, List.mem_reverse.2 ht, hx⟩)).1
  intro u hu
  exact hbounds u.token (hus ▸ List.mem_map_of_mem hu)

/-! ## Head lines -/

/-- A head line is blank up to a hash sign. -/
theorem exists_of_headLine {line : Text} {first : Bool}
    (h : ((first && isInterpreterLine line) || isCodingLine line) = true) :
    ∃ w c, line = w ++ '#' :: c ∧ ∀ b ∈ w, isBlankChar b = true := by
  rw [Bool.or_eq_true, Bool.and_eq_true] at h
  rcases h with ⟨-, h⟩ | h
  · obtain ⟨c, rfl⟩ := List.isPrefixOf_iff_prefix.1 h
    exact ⟨[], '!' :: c, rfl, by simp⟩
  · rw [isCodingLine, Bool.and_eq_true, beq_iff_eq] at h
    obtain ⟨c, hc⟩ := List.head?_eq_some_iff.1 h.1
    refine ⟨line.takeWhile isBlankChar, c, ?_, fun b hb => List.all_eq_true.1 List.all_takeWhile b hb⟩
    rw [← hc, Text.trimStart, List.takeWhile_append_dropWhile]

/-- The scan skips one head line with its line feed. -/
theorem skips_headLine (a : Text) {t : Text} {first : Bool}
    (h : ((first && isInterpreterLine (Text.firstLine t)) || isCodingLine (Text.firstLine t)) = true) :
    ∃ l r, t = l ++ r ∧ Skips l r ∧ Text.lineEnd (a ++ t) a.size = Text.size (a ++ l) := by
  obtain ⟨w, c, hline, hw⟩ := exists_of_headLine h
  obtain ⟨r, hsplit, hnot, hhead⟩ := Text.exists_firstLine_append t
  rw [hline] at hsplit hnot
  subst hsplit
  simp only [List.mem_append, List.mem_cons, not_or] at hnot
  have hskips : Skips (w ++ '#' :: c) r :=
    skips_commentLine (fun b hb => ⟨hw b hb, fun e => hnot.1 (e ▸ hb)⟩) hnot.2.2 hhead
  cases r with
  | nil =>
    refine ⟨w ++ '#' :: c, [], rfl, hskips, ?_⟩
    rw [List.append_nil]
    exact Text.lineEnd_append_of_not_mem (by simp [hnot])
  | cons b r =>
    obtain rfl : b = '\n' := hhead b rfl
    refine ⟨(w ++ '#' :: c) ++ ['\n'], r, by simp, hskips.append (skips_lineBreak r), ?_⟩
    rw [Text.lineEnd_append (by simp [hnot])]
    simp only [Text.size_append, Text.size_cons, Text.size_nil]
    rfl

/-- The scan skips the head lines. -/
theorem skips_headEndFrom (lines : Nat) (a : Text) (first : Bool) (t : Text) :
    ∃ l r, t = l ++ r ∧ Skips l r ∧ headEndFrom (a ++ t) lines first a.size = Text.size (a ++ l) := by
  induction lines generalizing a t first with
  | zero => exact ⟨[], t, rfl, Skips.nil t, by simp [headEndFrom]⟩
  | succ lines ih =>
    rw [headEndFrom]
    simp only [Text.dropBytes_append]
    split
    · next h =>
      obtain ⟨l, r, rfl, hskips, hend⟩ := skips_headLine a h
      obtain ⟨l', r', rfl, hskips', hend'⟩ := ih (a ++ l) false r
      refine ⟨l ++ l', r', by simp, hskips.append hskips', ?_⟩
      rw [hend, ← List.append_assoc, hend', List.append_assoc]
    · exact ⟨[], t, rfl, Skips.nil t, by simp⟩

theorem exists_skips_headEnd (source : Text) :
    ∃ l r, source = l ++ r ∧ Skips l r ∧ headEnd source = l.size :=
  skips_headEndFrom 2 [] true source

/-- No statement of a script begins in front of the end of the head lines. -/
theorem headEnd_le_of_parse {source : Text} {root : Tree} (h : parse source = .ok root) :
    ∀ t ∈ root.children, ∀ x ∈ t.nodes, headEnd source ≤ x.span.startByte := by
  obtain ⟨l, r, rfl, hskips, hend⟩ := exists_skips_headEnd source
  rw [hend]
  exact hskips.le_of_parse h

/-! ## The place for new imports -/

theorem isCut_headEnd (source : Text) : source.IsCut (headEnd source) := by
  obtain ⟨l, r, hsplit, -, hend⟩ := exists_skips_headEnd source
  exact ⟨l, r, hsplit, hend.symm⟩

theorem mem_statements_of_mem_headStatements {s : Script} {t : Tree} (h : t ∈ s.headStatements) :
    t ∈ s.statements := by
  unfold headStatements at h
  split at h
  · simp at h
  · next first rest hstatements =>
    rw [hstatements]
    split at h
    · rcases List.mem_cons.1 h with rfl | h
      · exact List.mem_cons_self ..
      · exact List.mem_cons_of_mem _ ((List.takeWhile_prefix _).subset h)
    · simp at h

/-- New imports go behind the line of the last head statement. -/
theorem insertionOffset_of_getLast? {s : Script} (hp : Syntax.parse s.source = .ok s.root) {last : Tree}
    (h : s.headStatements.getLast? = some last) :
    s.insertionOffset = s.source.lineEnd last.span.endByte := by
  have hmem := mem_statements_of_mem_headStatements (List.mem_of_getLast? h)
  have hhead := headEnd_le_of_parse hp last hmem last last.self_mem_nodes
  have hspan := ((inOrder_of_parse hp).bounds hmem).2.1
  have hcut := isCut_of_parse hp last (Tree.mem_nodes.2 (.inr ⟨last, hmem, last.self_mem_nodes⟩))
  have hline := Text.le_lineEnd hcut.2
  simp only [insertionOffset, h]
  omega

/-- Without head statements, new imports go behind the head lines. -/
theorem insertionOffset_of_none {s : Script} (h : s.headStatements.getLast? = none) :
    s.insertionOffset = headEnd s.source := by
  simp [insertionOffset, h]

theorem isCut_insertionOffset {s : Script} (hp : Syntax.parse s.source = .ok s.root) :
    s.source.IsCut s.insertionOffset := by
  cases h : s.headStatements.getLast? with
  | none =>
    rw [insertionOffset_of_none h]
    exact isCut_headEnd s.source
  | some last =>
    have hmem := mem_statements_of_mem_headStatements (List.mem_of_getLast? h)
    rw [insertionOffset_of_getLast? hp h]
    exact Text.isCut_lineEnd
      (isCut_of_parse hp last (Tree.mem_nodes.2 (.inr ⟨last, hmem, last.self_mem_nodes⟩))).2

end Script

end Redeploy
