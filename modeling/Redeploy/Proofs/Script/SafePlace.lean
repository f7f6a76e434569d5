import Redeploy.Proofs.Fallible
import Redeploy.Proofs.Script.Head
import Redeploy.Proofs.Syntax.Gaps

set_option autoImplicit false

/-! # A safe place for new lines

Lines that are put into a script are statements of their own where a line of the script begins, and they
run before all statements behind them. `IsSafePlace` says so of an offset behind the description and the
imports from `__future__`, which have to stay in front.

The place for new imports is told by the kinds of a few nodes and by the next line feed. It is safe
under three conditions, and only then (`isSafePlace_insertionOffset_iff`): the statements taken for the
head are those that have to stay in front, none of the others begins on the line on which they end, and
that line, or the last of the head lines, ends in a line break. -/

namespace Redeploy.Syntax

/-! ## Statements have an extent -/

/-- A token that is no layout mark covers something. -/
theorem Mended.lt_of_mem {source : Text} {ps : List Placed} (h : Mended source ps) {t : Token}
    (ht : t ∈ tokensOf ps) (hwritten : t.isLayout = false) : t.span.startByte < t.span.endByte := by
  rcases isMark_or_stands_of_mem_layout ht with hmark | ⟨p, hp, hkind, -, hspan⟩
  · rw [hmark.1] at hwritten
    simp at hwritten
  · have htext := h.text_ne_nil hp fun hnewline => by
      rw [hkind, LexemeKind.token.injEq] at hnewline
      simp [Token.isLayout, hnewline] at hwritten
    have hplaced : p ∈ placedLexemes source := by
      rw [← h.written]
      exact List.mem_filter.2 ⟨hp, by simpa using htext⟩
    rw [← hspan]
    exact lt_of_mem_placedLexemes hplaced

/-- A statement of a script covers something. -/
theorem lt_of_parse {source : Text} {root : Tree} (h : parse source = .ok root) :
    ∀ t ∈ root.children, t.span.startByte < t.span.endByte := by
  intro t ht
  obtain ⟨ps, us, k, hps, hus, hreads⟩ := exists_reads_of_parse h
  obtain ⟨xs, hbuilt, hrows⟩ := hreads.rows
  obtain ⟨pre, post, hsplit⟩ := List.append_of_mem ht
  have hxs : xs = root.children := by simpa using (congrArg List.reverse hbuilt).symm
  rw [hxs, hsplit] at hrows
  obtain ⟨vs, u, ws, ws', rfl, -, hx, -⟩ := hrows.readAt hreads.accepts
  -- the first token of a statement is written
  have hlayout := isLayout_of_isMark_eq_false hx.begins (hreads.accepts u (by simp))
  have hlt := hps.lt_of_mem (hus ▸ List.mem_map_of_mem (by simp)) hlayout
  have horder := hps.inOrder
  rw [← hus, Use.tokens_append, Use.tokens_append, Token.inOrder_append, Token.inOrder_append] at horder
  have hend := (horder.2.1.bounds (t := u.token) (List.mem_cons_self ..)).2.2
  rw [Use.endOf_tokens] at hend
  rw [hx.span]
  exact Nat.lt_of_lt_of_le hlt hend

/-! ## Line breaks -/

/-- A line break that is neither part of a string nor hidden by a backslash ends at an offset. -/
def BreaksAt (source : Text) (n : Nat) : Prop :=
  ∃ p ∈ placedLexemes source, p.lexeme.kind = .lineBreak ∧ p.span.endByte = n

theorem nextLexeme_of_lineBreak {modes : List Mode} {c : Char} {t : Text}
    (h : (nextLexeme modes (c :: t)).1 = .lineBreak) :
    c = '\n' ∧ (nextLexeme modes (c :: t)).2.1 = 1 := by
  have hcode : ∀ modes, (nextInCode modes (c :: t)).1 = .lineBreak →
      c = '\n' ∧ (nextInCode modes (c :: t)).2.1 = 1 := by
    intro modes h
    by_cases hc : c = '\n'
    · exact ⟨hc, by simp [nextInCode, hc]⟩
    · obtain ⟨k, hk⟩ := nextSymbol_isToken modes (c :: t)
      simp only [nextInCode, hc, if_false] at h
      repeat' split at h
      all_goals simp_all
  unfold nextLexeme at h ⊢
  split at h
  · unfold nextInString at h
    split at h <;> simp at h
  · unfold nextInFormat at h
    split at h <;> simp at h
  · exact hcode _ h

theorem text_of_lineBreak {steps : Nat} {modes : List Mode} {t : Text} {l : Lexeme}
    (h : l ∈ scanWith steps modes t) (hl : l.kind = .lineBreak) : l.text = ['\n'] := by
  induction steps generalizing modes t with
  | zero => simp [scanWith] at h
  | succ steps ih =>
    cases t with
    | nil => simp [scanWith] at h
    | cons c t =>
      simp only [scanWith, List.mem_cons] at h
      rcases h with rfl | h
      · obtain ⟨rfl, hlength⟩ := nextLexeme_of_lineBreak hl
        simp [hlength]
      · exact ih h

/-- Right in front of the end of a line break stands a line feed. -/
theorem BreaksAt.exists_append {source : Text} {n : Nat} (h : BreaksAt source n) :
    ∃ a b : Text, source = a ++ '\n' :: b ∧ n = a.size + 1 := by
  obtain ⟨p, hp, hkind, rfl⟩ := h
  obtain ⟨a, b, hsource, -, hend⟩ := (cover_placedLexemes source).exists_append hp
  rw [text_of_lineBreak (lexeme_mem_of_mem_placeFrom hp) hkind] at hsource hend
  refine ⟨a, b, by simpa using hsource, ?_⟩
  rw [hend, Nat.zero_add]
  rfl

end Redeploy.Syntax

namespace Redeploy.Script

open Syntax

/-! ## What stays in front -/

/-- Whether the letters in front of a string leave it a text, and make it no bytes and no format. -/
def marksText (marker : Text) : Bool :=
  marker.all fun c => !(['b', 'B', 'f', 'F'].contains c)

mutual

/-- Whether an expression is a text that is written out: a string, several in a row, or such a text in
    parentheses. -/
def isWrittenText (source : Text) : Tree → Bool
  | .node .string _ span _ =>
    marksText ((source.slice span.startByte span.endByte).takeWhile isMarkerLetter)
  | .node .concatenatedString _ _ children => areWrittenTexts source children
  | .node .parenthesizedExpression _ _ children => areWrittenTexts source children
  | _ => false

/-- Whether all of several expressions are texts that are written out. -/
def areWrittenTexts (source : Text) : List Tree → Bool
  | [] => true
  | t :: ts => isWrittenText source t && areWrittenTexts source ts

end

/-- Whether a statement describes the script if it is the first one: a text and nothing more, not even a
    comma. -/
def isDocstring (source : Text) (t : Tree) : Bool :=
  t.kind == .expressionStatement &&
    match t.children with
    | [c] => isWrittenText source c && c.span.endByte == t.span.endByte
    | _ => false

/-- Whether a statement imports from `__future__`, for which the grammar has a kind of its own. -/
def importsFuture (t : Tree) : Bool :=
  t.kind == .futureImportStatement

/-- The statements that have to stay in front: the description, and the imports from `__future__` that
    begin the script or follow the description. -/
def leading (s : Script) : List Tree :=
  match s.statements with
  | [] => []
  | first :: rest =>
    if isDocstring s.source first || importsFuture first then first :: rest.takeWhile importsFuture
    else []

/-- All other statements. -/
def following (s : Script) : List Tree :=
  s.statements.drop s.leading.length

/-- An offset at which whole lines can be inserted: they are statements of their own there, behind all
    that has to stay in front and before everything else. -/
structure IsSafePlace (s : Script) (n : Nat) : Prop where
  within : n ≤ s.source.size
  /-- A line begins there. -/
  line : n = 0 ∨ BreaksAt s.source n
  /-- No statement goes on there. -/
  outside : ∀ t ∈ s.statements, ¬ (t.span.startByte < n ∧ n < t.span.endByte)
  behind : ∀ t ∈ s.leading, t.span.endByte ≤ n
  before : ∀ t ∈ s.following, n ≤ t.span.startByte

instance (source : Text) (n : Nat) : Decidable (BreaksAt source n) :=
  inferInstanceAs (Decidable (∃ p ∈ placedLexemes source, _))

instance (s : Script) (n : Nat) : Decidable (s.IsSafePlace n) :=
  decidable_of_iff
    (n ≤ s.source.size ∧ (n = 0 ∨ BreaksAt s.source n) ∧
      (∀ t ∈ s.statements, ¬ (t.span.startByte < n ∧ n < t.span.endByte)) ∧
      (∀ t ∈ s.leading, t.span.endByte ≤ n) ∧ ∀ t ∈ s.following, n ≤ t.span.startByte)
    ⟨fun ⟨h₁, h₂, h₃, h₄, h₅⟩ => ⟨h₁, h₂, h₃, h₄, h₅⟩,
      fun h => ⟨h.within, h.line, h.outside, h.behind, h.before⟩⟩

/-! ## The head statements and what stays in front -/

variable {s : Script}

theorem leading_initial (s : Script) : s.leading <+: s.statements := by
  unfold leading
  split
  · exact List.nil_prefix
  · next first rest hstatements =>
    rw [hstatements]
    split
    · exact List.cons_prefix_cons.2 ⟨rfl, List.takeWhile_prefix importsFuture⟩
    · exact List.nil_prefix

theorem leading_append_following (s : Script) : s.leading ++ s.following = s.statements := by
  obtain ⟨rest, hrest⟩ := leading_initial s
  rw [following, ← hrest, List.drop_left]

theorem headStatements_initial (s : Script) : s.headStatements <+: s.statements := by
  unfold headStatements
  split
  · exact List.nil_prefix
  · next first rest hstatements =>
    rw [hstatements]
    split
    · exact List.cons_prefix_cons.2 ⟨rfl, List.takeWhile_prefix _⟩
    · exact List.nil_prefix

theorem takeWhile_prefix_takeWhile {α : Type} {p q : α → Bool} (h : ∀ a, p a = true → q a = true)
    (l : List α) : l.takeWhile p <+: l.takeWhile q := by
  induction l with
  | nil => exact List.nil_prefix
  | cons a l ih =>
    by_cases hp : p a = true
    · rw [List.takeWhile_cons_of_pos hp, List.takeWhile_cons_of_pos (h a hp)]
      exact List.cons_prefix_cons.2 ⟨rfl, ih⟩
    · rw [List.takeWhile_cons_of_neg hp]
      exact List.nil_prefix

/-- The head is missed altogether, or it goes as far as what has to stay in front. -/
theorem headStatements_eq_nil_or (s : Script) :
    s.headStatements = [] ∨ s.leading <+: s.headStatements := by
  unfold headStatements leading
  cases s.statements with
  | nil => exact .inl rfl
  | cons first rest =>
    simp only
    split
    · right
      split
      · refine List.cons_prefix_cons.2 ⟨rfl, takeWhile_prefix_takeWhile ?_ rest⟩
        intro t ht
        simp only [importsFuture] at ht
        simp [isFutureImport, ht]
      · exact List.nil_prefix
    · exact .inl rfl

/-- Every head statement ends in front of the place for new imports. -/
theorem endByte_le_insertionOffset (hp : parse s.source = .ok s.root) {t : Tree}
    (ht : t ∈ s.headStatements) : t.span.endByte ≤ s.insertionOffset := by
  obtain ⟨front, last, hlast⟩ : ∃ front last, s.headStatements = front ++ [last] :=
    ⟨_, _, (List.dropLast_append_getLast (List.ne_nil_of_mem ht)).symm⟩
  have hlast' : s.headStatements.getLast? = some last := by simp [hlast]
  have hmem := mem_statements_of_mem_headStatements (List.mem_of_getLast? hlast')
  have hspan := ((inOrder_of_parse hp).bounds hmem).2.1
  have hcut := isCut_of_parse hp last (Tree.mem_nodes.2 (.inr ⟨last, hmem, last.self_mem_nodes⟩))
  have hline := Text.le_lineEnd hcut.2
  have horder : s.statements.Pairwise _ := (inOrder_of_parse hp).pairwise
  obtain ⟨rest, hrest⟩ := headStatements_initial s
  rw [← hrest, hlast] at horder
  have hfront := (List.pairwise_append.1 (List.pairwise_append.1 horder).1).2.2
  rw [insertionOffset_of_getLast? hp hlast']
  rw [hlast] at ht
  rcases List.mem_append.1 ht with ht | ht
  · have := hfront t ht last (List.mem_singleton_self last)
    omega
  · rw [List.mem_singleton.1 ht]
    exact hline

/-- At a place between what has to stay in front and the rest, the head statements are taken right. -/
theorem headStatements_eq_leading (hp : parse s.source = .ok s.root)
    (hbehind : ∀ t ∈ s.leading, t.span.endByte ≤ s.insertionOffset)
    (hbefore : ∀ t ∈ s.following, s.insertionOffset ≤ t.span.startByte) :
    s.headStatements = s.leading := by
  have hlt : ∀ t ∈ s.statements, t.span.startByte < t.span.endByte := lt_of_parse hp
  have hsplit := leading_append_following s
  rcases headStatements_eq_nil_or s with hnil | ⟨more, hmore⟩
  · -- without head statements, a leading statement would begin behind the place
    rw [hnil]
    by_contra hne
    obtain ⟨t, ht⟩ := List.exists_mem_of_ne_nil s.leading (Ne.symm hne)
    have hmem : t ∈ s.statements := (leading_initial s).subset ht
    have hhead := headEnd_le_of_parse hp t hmem t t.self_mem_nodes
    have hend := hbehind t ht
    rw [insertionOffset_of_none (by simp [hnil])] at hend
    have := hlt t hmem
    omega
  · -- one statement more would end in front of the place
    by_contra hne
    cases more with
    | nil => exact hne (by rw [← hmore, List.append_nil])
    | cons t more =>
      have hhead : t ∈ s.headStatements := by simp [← hmore]
      have hfollowing : t ∈ s.following := by
        obtain ⟨rest, hrest⟩ := headStatements_initial s
        rw [← hmore, ← hsplit, List.append_assoc, List.append_cancel_left_eq] at hrest
        simp [← hrest]
      have hend := endByte_le_insertionOffset hp hhead
      have hstart := hbefore t hfollowing
      have := hlt t (mem_statements_of_mem_headStatements hhead)
      omega

/-! ## The place for new imports -/

/-- The place for new imports is safe exactly if three conditions hold. The statements taken for the
    head are those that have to stay in front. If there are any, no further statement begins on the line
    on which the last of them ends, and a line break ends that line. If there are none, a line break
    ends the head lines, unless there are none of them either. -/
theorem isSafePlace_insertionOffset_iff {file : String} {source : Text}
    (hread : Script.read file source = .ok s) :
    s.IsSafePlace s.insertionOffset ↔ s.headStatements = s.leading ∧
      (∀ last ∈ s.leading.getLast?, BreaksAt source (source.lineEnd last.span.endByte) ∧
        ∀ t ∈ s.following, ¬ source.OnLineBehind last.span.endByte t.span.startByte) ∧
      (s.leading = [] → headEnd source = 0 ∨ BreaksAt source (headEnd source)) := by
  obtain ⟨hp, rfl, -⟩ := parse_of_read hread
  have hsplit := leading_append_following s
  have hpairwise : s.statements.Pairwise _ := (inOrder_of_parse hp).pairwise
  rw [← hsplit, List.pairwise_append] at hpairwise
  constructor
  · intro h
    have heq := headStatements_eq_leading hp h.behind h.before
    refine ⟨heq, fun last hlast => ?_, fun hnil => ?_⟩
    · have hmem := List.mem_of_getLast? hlast
      rw [← heq] at hlast
      have hoffset := insertionOffset_of_getLast? hp hlast
      have hline := h.line
      have hbefore := h.before
      rw [hoffset] at hline hbefore
      refine ⟨hline.resolve_left ?_, fun t ht hon => ?_⟩
      · have := lt_of_parse hp last ((leading_initial s).subset hmem)
        have := h.behind last hmem
        omega
      · exact Nat.not_lt_of_le (hbefore t ht) hon.2
    · have hline := h.line
      rwa [insertionOffset_of_none (by simp [heq, hnil])] at hline
  · rintro ⟨heq, hlast, hnone⟩
    have hbehind : ∀ t ∈ s.leading, t.span.endByte ≤ s.insertionOffset := fun t ht =>
      endByte_le_insertionOffset hp (heq ▸ ht)
    have hplace : (s.insertionOffset = 0 ∨ BreaksAt s.source s.insertionOffset) ∧
        ∀ t ∈ s.following, s.insertionOffset ≤ t.span.startByte := by
      cases hget : s.leading.getLast? with
      | none =>
        have hnil := List.getLast?_eq_none_iff.1 hget
        rw [insertionOffset_of_none (by rw [heq, hget])]
        refine ⟨hnone hnil, fun t ht => ?_⟩
        have hmem : t ∈ s.statements := by simp [← hsplit, ht]
        exact headEnd_le_of_parse hp t hmem t t.self_mem_nodes
      | some last =>
        obtain ⟨hbreak, hline⟩ := hlast last hget
        rw [insertionOffset_of_getLast? hp (by rw [heq, hget])]
        refine ⟨.inr hbreak, fun t ht => ?_⟩
        have hle := hpairwise.2.2 last (List.mem_of_getLast? hget) t ht
        have := hline t ht
        unfold Text.OnLineBehind at this
        omega
    refine ⟨(isCut_insertionOffset hp).le_size, hplace.1, fun t ht hin => ?_, hbehind, hplace.2⟩
    rw [← hsplit, List.mem_append] at ht
    rcases ht with ht | ht
    · exact Nat.not_lt_of_le (hbehind t ht) hin.2
    · exact Nat.not_lt_of_le (hplace.2 t ht) hin.1

/-- A description and an import from `__future__`: the place behind them is safe, so a line break ends
    the line of the import, and nothing else begins there. -/
theorem safePlace_behind_future : ∃ script,
    Script.read "my_flows.py" ("\"\"\"Deploy flows.\"\"\"\n" ++
      "from __future__ import annotations\nimport os\n").toList = .ok script ∧
    script.insertionOffset = 55 ∧ script.IsSafePlace 55 ∧ script.headStatements = script.leading := by
  have hrun : ((Script.read "my_flows.py" ("\"\"\"Deploy flows.\"\"\"\n" ++
      "from __future__ import annotations\nimport os\n").toList).map fun s =>
        (s.insertionOffset, decide (s.IsSafePlace 55))) = .ok (55, true) := by decide +kernel
  obtain ⟨script, hread, hplace⟩ := exists_of_map_eq_ok hrun
  rw [Prod.mk.injEq, decide_eq_true_eq] at hplace
  have hsafe := (isSafePlace_insertionOffset_iff hread).1 (hplace.1 ▸ hplace.2)
  exact ⟨script, hread, hplace.1, hplace.2, hsafe.1⟩

/-- A description made of two strings in a row: neither it nor the import from `__future__` behind it is
    passed, although the place behind both of them is safe. -/
theorem unsafe_before_joined_description : ∃ script,
    Script.read "my_flows.py" ("\"Deploy \" \"flows.\"\n" ++
      "from __future__ import annotations\nimport os\n").toList = .ok script ∧
    script.insertionOffset = 0 ∧ ¬ script.IsSafePlace 0 ∧ script.IsSafePlace 54 := by
  have hrun : ((Script.read "my_flows.py" ("\"Deploy \" \"flows.\"\n" ++
      "from __future__ import annotations\nimport os\n").toList).map fun s =>
        (s.insertionOffset, decide (s.IsSafePlace 0), decide (s.IsSafePlace 54))) =
      .ok (0, false, true) := by decide +kernel
  obtain ⟨script, hread, hplace⟩ := exists_of_map_eq_ok hrun
  simp only [Prod.mk.injEq, decide_eq_true_eq, decide_eq_false_iff_not] at hplace
  exact ⟨script, hread, hplace⟩

end Redeploy.Script
