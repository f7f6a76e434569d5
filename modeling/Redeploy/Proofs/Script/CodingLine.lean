import Redeploy.Proofs.Fallible
import Redeploy.Proofs.Script.Head
import Redeploy.Text.CharClass

set_option autoImplicit false

/-! # The interpreter and the encoding of a script

The line that names the interpreter is the first line of a script, and a comment that tells the encoding
has to be one of the first two lines, the second one only if nothing but a comment is on the first one.
New imports stay behind the line of the interpreter. They stay behind a comment that tells the encoding
if the first `coding` in it tells the encoding and the line in front of it is a head line as well, or if
there are head statements, and in no other case (`headLines_kept`). -/

namespace Redeploy.Script

open Syntax

/-! ## Comments that tell the encoding -/

/-- The characters that can stand in front of a comment on a line of its own. -/
def isIndent (c : Char) : Bool :=
  c = ' ' || c = '\t' || c.toNat = 12

/-- The characters that the name of an encoding consists of. -/
def isEncodingChar (c : Char) : Bool :=
  isAsciiLetter c || isAsciiDigit c || ['-', '_', '.'].contains c

/-- A comment on a line of its own that tells the encoding: somewhere in it stand the word `coding`, a
    colon or an equals sign right behind it, and a name. -/
inductive IsCodingComment : Text → Prop
  | comment (indent before gap after : Text) (mark c : Char) (hindent : ∀ b ∈ indent, isIndent b = true)
    (hmark : mark = ':' ∨ mark = '=') (hgap : ∀ b ∈ gap, b = ' ' ∨ b = '\t')
    (hc : isEncodingChar c = true) :
    IsCodingComment (indent ++ '#' :: (before ++ "coding".toList ++ mark :: (gap ++ c :: after)))

/-- A line on which there is nothing but perhaps a comment. -/
inductive IsIdleLine : Text → Prop
  | blank (line : Text) (h : ∀ b ∈ line, isIndent b = true ∨ b = '\r') : IsIdleLine line
  | comment (indent text : Text) (h : ∀ b ∈ indent, isIndent b = true) :
    IsIdleLine (indent ++ '#' :: text)

theorem IsCodingComment.isIdleLine {line : Text} (h : IsCodingComment line) : IsIdleLine line := by
  obtain ⟨indent, before, gap, after, mark, c, hindent, -, -, -⟩ := h
  exact .comment indent _ hindent

theorem IsCodingComment.ne_nil {line : Text} (h : IsCodingComment line) : line ≠ [] := by
  cases h
  simp

theorem isBlankChar_of_isIndent {c : Char} (h : isIndent c = true ∨ c = '\r') :
    isBlankChar c = true ∧ c ≠ '\n' := by
  have hcode : c.toNat = 32 ∨ c.toNat = 9 ∨ c.toNat = 12 ∨ c.toNat = 13 := by
    rcases h with h | rfl
    · simp only [isIndent, Bool.or_eq_true, decide_eq_true_eq] at h
      rcases h with (rfl | rfl) | h
      · exact .inl rfl
      · exact .inr (.inl rfl)
      · exact .inr (.inr (.inl h))
    · exact .inr (.inr (.inr rfl))
  refine ⟨?_, ?_⟩
  · rcases hcode with hcode | hcode | hcode | hcode <;> simp [isBlankChar, hcode]
  · rintro rfl
    revert hcode
    decide

/-- What the scan skips of a line on which there is nothing but perhaps a comment. -/
theorem IsIdleLine.skips {line r : Text} (h : IsIdleLine line) (hnot : '\n' ∉ line)
    (hr : ∀ b, r.head? = some b → b = '\n') : Skips line r := by
  cases h with
  | blank _ h =>
    refine skips_blanks (fun b hb => isBlankChar_of_isIndent (h b hb)) fun b hb => ?_
    rw [hr b hb]
    rfl
  | comment _ _ h =>
    simp only [List.mem_append, List.mem_cons, not_or] at hnot
    exact skips_commentLine (fun b hb => isBlankChar_of_isIndent (.inl (h b hb))) hnot.2.2 hr

/-- A comment that tells the encoding is taken for one if its first `coding` does so. -/
theorem IsCodingComment.isCodingLine_eq {line : Text} (h : IsCodingComment line) :
    isCodingLine line = declaresCoding line := by
  obtain ⟨indent, before, gap, after, mark, c, hindent, -, -, -⟩ := h
  rw [isCodingLine, Text.trimStart, List.dropWhile_append_of_pos fun b hb =>
    (isBlankChar_of_isIndent (.inl (hindent b hb))).1]
  simp [isBlankChar]

/-! ## The end of the head lines -/

theorem le_headEndFrom {source : Text} {n : Nat} (h : source.IsCut n) (lines : Nat) (first : Bool) :
    n ≤ headEndFrom source lines first n := by
  obtain ⟨a, t, rfl, rfl⟩ := h
  obtain ⟨l, r, -, -, hend⟩ := skips_headEndFrom lines a first t
  rw [hend, Text.size_append]
  exact Nat.le_add_right ..

theorem size_firstLine_le_lineEnd (a t : Text) :
    Text.size (a ++ t.firstLine) ≤ Text.lineEnd (a ++ t) a.size := by
  obtain ⟨r, hsplit, hnot, -⟩ := Text.exists_firstLine_append t
  rw [show a ++ t = a ++ t.firstLine ++ r by rw [List.append_assoc, ← hsplit]]
  exact Text.size_le_lineEnd fun h => hnot (List.dropLast_subset _ h)

/-- The head lines go beyond the first line exactly if that is one of them. -/
theorem size_firstLine_le_headEnd_iff {source : Text} (hne : source.firstLine ≠ []) :
    source.firstLine.size ≤ headEnd source ↔
      isInterpreterLine source.firstLine = true ∨ isCodingLine source.firstLine = true := by
  have hdrop : source.dropBytes 0 = source := Text.dropBytes_append [] source
  have hline : source.firstLine.size ≤ source.lineEnd 0 := size_firstLine_le_lineEnd [] source
  have hpos : 0 < source.firstLine.size := by
    rw [Nat.pos_iff_ne_zero, Ne, Text.size_eq_zero]
    exact hne
  rw [headEnd, headEndFrom]
  simp only [hdrop, Bool.true_and, Bool.or_eq_true]
  split
  · next h =>
    have hle := le_headEndFrom (Text.isCut_lineEnd source.isCut_zero) 1 false
    exact iff_of_true (Nat.le_trans hline hle) h
  · next h => exact iff_of_false (by omega) h

/-- The head lines go beyond the second line exactly if both lines are among them. -/
theorem size_secondLine_le_headEnd_iff {line rest : Text} (hnot : '\n' ∉ line)
    (hne : rest.firstLine ≠ []) :
    Text.size (line ++ '\n' :: rest.firstLine) ≤ headEnd (line ++ '\n' :: rest) ↔
      (isInterpreterLine line = true ∨ isCodingLine line = true) ∧
        isCodingLine rest.firstLine = true := by
  have hdrop : Text.dropBytes (line ++ '\n' :: rest) 0 = line ++ '\n' :: rest :=
    Text.dropBytes_append [] _
  have hfirst : Text.lineEnd (line ++ '\n' :: rest) 0 = Text.size (line ++ ['\n']) := by
    rw [Text.size_append, show Text.size ['\n'] = 1 from rfl]
    simpa using Text.lineEnd_append (a := []) (r := rest) hnot
  have hbehind : line ++ '\n' :: rest = (line ++ ['\n']) ++ rest := by simp
  have hsecond := size_firstLine_le_lineEnd (line ++ ['\n']) rest
  have hsize : Text.size (line ++ '\n' :: rest.firstLine) =
      Text.size (line ++ ['\n'] ++ rest.firstLine) := by simp
  have hpos : Text.size (line ++ ['\n']) < Text.size (line ++ ['\n'] ++ rest.firstLine) := by
    rw [Text.size_append (line ++ ['\n']), Nat.lt_add_right_iff_pos, Nat.pos_iff_ne_zero, Ne,
      Text.size_eq_zero]
    exact hne
  rw [headEnd, headEndFrom, hsize]
  simp only [hdrop, Text.firstLine_append hnot, Bool.true_and, Bool.or_eq_true, hfirst]
  split
  · next h =>
    rw [headEndFrom, hbehind]
    simp only [Text.dropBytes_append, Bool.false_and, Bool.false_or, headEndFrom]
    split
    · next h' => exact iff_of_true hsecond ⟨h, h'⟩
    · next h' => exact iff_of_false (Nat.not_le_of_lt hpos) fun hand => h' hand.2
  · next h => exact iff_of_false (by omega) fun hand => h hand.1

/-! ## The place for new imports -/

variable {s : Script}

/-- New imports stay behind what the scan skips exactly if the head lines go that far, or if there are
    head statements. -/
theorem Skips.size_le_insertionOffset_iff {l r : Text} (h : Skips l r) (hs : s.source = l ++ r)
    (hp : parse s.source = .ok s.root) :
    l.size ≤ s.insertionOffset ↔ l.size ≤ headEnd s.source ∨ s.headStatements ≠ [] := by
  cases hget : s.headStatements.getLast? with
  | none =>
    rw [insertionOffset_of_none hget, List.getLast?_eq_none_iff.1 hget]
    simp
  | some last =>
    have hmem := List.mem_of_getLast? hget
    refine iff_of_true ?_ (.inr (List.ne_nil_of_mem hmem))
    have hstatement := mem_statements_of_mem_headStatements hmem
    have hspan := ((inOrder_of_parse hp).bounds hstatement).2.1
    have hcut := isCut_of_parse hp last (Tree.mem_nodes.2 (.inr ⟨last, hstatement, last.self_mem_nodes⟩))
    have hline := Text.le_lineEnd hcut.2
    have hle := h.le_of_parse (hs ▸ hp) last hstatement last last.self_mem_nodes
    rw [insertionOffset_of_getLast? hp hget]
    omega

/-- New imports never stand in front of the line of the interpreter. They stand behind a comment that
    tells the encoding exactly if there are head statements, or if the comment is taken for a head line:
    its first `coding` tells the encoding, and a line in front of it is a head line as well. -/
theorem headLines_kept {file : String} {source : Text} (hread : Script.read file source = .ok s) :
    (isInterpreterLine source.firstLine = true → source.firstLine.size ≤ s.insertionOffset) ∧
    (IsCodingComment source.firstLine → (source.firstLine.size ≤ s.insertionOffset ↔
      (isInterpreterLine source.firstLine = true ∨ declaresCoding source.firstLine = true) ∨
        s.headStatements ≠ [])) ∧
    ∀ line rest : Text, source = line ++ '\n' :: rest → '\n' ∉ line → IsIdleLine line →
      IsCodingComment rest.firstLine → (Text.size (line ++ '\n' :: rest.firstLine) ≤ s.insertionOffset ↔
        ((isInterpreterLine line = true ∨ isCodingLine line = true) ∧
          declaresCoding rest.firstLine = true) ∨ s.headStatements ≠ []) := by
  obtain ⟨hp, rfl, -⟩ := parse_of_read hread
  refine ⟨fun hinterpreter => ?_, fun hcoding => ?_, ?_⟩
  · have hne : s.source.firstLine ≠ [] := by
      intro hnil
      simp [hnil, isInterpreterLine] at hinterpreter
    exact Nat.le_trans ((size_firstLine_le_headEnd_iff hne).2 (.inl hinterpreter)) (Nat.le_max_right ..)
  · obtain ⟨r, hsplit, hnot, hhead⟩ := Text.exists_firstLine_append s.source
    rw [(hcoding.isIdleLine.skips hnot hhead).size_le_insertionOffset_iff hsplit hp,
      size_firstLine_le_headEnd_iff hcoding.ne_nil, hcoding.isCodingLine_eq]
  · intro line rest hsource hnot hidle hcoding
    obtain ⟨r, hsplit, hnot', hhead⟩ := Text.exists_firstLine_append rest
    have hskips : Skips (line ++ ['\n'] ++ rest.firstLine) r :=
      ((hidle.skips hnot (by simp)).append (skips_lineBreak _)).append
        (hcoding.isIdleLine.skips hnot' hhead)
    have hsource' : s.source = line ++ ['\n'] ++ rest.firstLine ++ r := by
      rw [hsource, List.append_assoc _ _ r, ← hsplit]
      simp
    have hsize : line ++ '\n' :: rest.firstLine = line ++ ['\n'] ++ rest.firstLine := by simp
    rw [hsize, hskips.size_le_insertionOffset_iff hsource' hp, ← hsize, hsource,
      size_secondLine_le_headEnd_iff hnot hcoding.ne_nil, hcoding.isCodingLine_eq]

/-- The line of the interpreter and a comment that tells the encoding below it: new imports stay behind
    both. -/
theorem headLines_kept_below_interpreter : ∃ script,
    Script.read "my_flows.py" ("#!/usr/bin/env python\n" ++
      "# -*- coding: utf-8 -*-\nimport os\n").toList = .ok script ∧
    IsCodingComment "# -*- coding: utf-8 -*-".toList ∧
    Text.size ("#!/usr/bin/env python\n" ++ "# -*- coding: utf-8 -*-").toList ≤
      script.insertionOffset := by
  have hrun : ((Script.read "my_flows.py" ("#!/usr/bin/env python\n" ++
      "# -*- coding: utf-8 -*-\nimport os\n").toList).map fun s => s.headStatements.length) = .ok 0 := by
    decide +kernel
  obtain ⟨script, hread, -⟩ := exists_of_map_eq_ok hrun
  have hcoding : IsCodingComment "# -*- coding: utf-8 -*-".toList :=
    .comment [] " -*- ".toList [' '] "tf-8 -*-".toList ':' 'u' (by simp) (.inl rfl) (by simp) rfl
  refine ⟨script, hread, hcoding, ?_⟩
  exact ((headLines_kept hread).2.2 "#!/usr/bin/env python".toList
    "# -*- coding: utf-8 -*-\nimport os\n".toList (by simp) (by decide)
    (.comment [] _ (by simp)) hcoding).2 (.inl ⟨.inl rfl, by decide⟩)

/-- Another comment above a comment that tells the encoding: new imports go in front of both. -/
theorem coding_lost_below_comment : ∃ script,
    Script.read "my_flows.py" "# deploy\n# -*- coding: utf-8 -*-\nimport os\n".toList = .ok script ∧
    IsIdleLine "# deploy".toList ∧ IsCodingComment "# -*- coding: utf-8 -*-".toList ∧
    script.insertionOffset = 0 := by
  have hrun : ((Script.read "my_flows.py"
      "# deploy\n# -*- coding: utf-8 -*-\nimport os\n".toList).map insertionOffset) = .ok 0 := by
    decide +kernel
  obtain ⟨script, hread, hoffset⟩ := exists_of_map_eq_ok hrun
  exact ⟨script, hread, .comment [] _ (by simp),
    .comment [] " -*- ".toList [' '] "tf-8 -*-".toList ':' 'u' (by simp) (.inl rfl) (by simp) rfl,
    hoffset⟩

end Redeploy.Script
