import Redeploy.Proofs.Syntax.Brackets
import Redeploy.Proofs.Syntax.Cutting
import Redeploy.Proofs.Syntax.Rows
import Redeploy.Syntax.Parse

set_option autoImplicit false

/-! # Scripts of one statement

A line that is read as one simple statement is all that there is of a script
(`readTokens_of_simpleStatement`). An expression is such a statement where nothing else is read in its
place (`FillsLine.readTokens`). A script whose tokens are read so is not mended
(`parse_of_readTokens`). -/

namespace Redeploy.Syntax

theorem outcome_none_of_nil {x : Stage} {r : Rule Phrase} (hrest : x.rest = [])
    (hr : r.consumes = true) : outcome r x = none := by
  cases houtcome : outcome r x with
  | none => rfl
  | some y =>
    obtain ⟨d, s, hread, -⟩ := exists_read_of_outcome houtcome
    have hlt := (length_rest_of_read hread).2.1 hr
    rw [show x.reading.rest = [] from hrest] at hlt
    simp at hlt

section

variable {ps : List Token} {u t : Tree} {mark : Token} {x : Stage}

/-- A simple statement and the end of its line are the simple statements of a line. -/
theorem outcome_simpleStatements (hmark : mark.kind = .newline)
    (h : outcome Grammar.simpleStatement x = some ((x.past ps [mark]).extend none [t])) :
    outcome (.ref .simpleStatements) x = some ((x.past (ps ++ [mark]) []).extend none [t]) := by
  obtain ⟨kind, text, span⟩ := mark
  obtain rfl : kind = .newline := hmark
  have hend : ((x.past ps [⟨.newline, text, span⟩]).extend none [t]).rest = [⟨.newline, text, span⟩] := rfl
  have hmore := outcome_many_none (outcome_none_of_onset (r := .seq (Grammar.symbol ";")
    Grammar.simpleStatement) hend rfl)
  have hsemicolon := outcome_none_of_onset (r := Grammar.symbol ";") hend rfl
  rw [outcome_ref]
  show outcome (.seq Grammar.simpleStatement (.seq (.many _) (.seq (.alt _ .empty) (.token _)))) x = _
  rw [outcome_seq, h, Option.bind_some, outcome_seq, hmore, Option.bind_some, outcome_seq,
    outcome_alt, hsemicolon, Option.none_or, outcome_empty, Option.bind_some, outcome_token hend rfl]
  simp [Stage.behind, Stage.past, Stage.extend]

/-- A simple statement and the end of its line are all that there is of a script. -/
theorem readTokens_of_simpleStatement (hmark : mark.kind = .newline)
    (hcompound : ∀ r ∈ compoundStatements, outcome r (.start (ps ++ [mark])) = none)
    (h : outcome Grammar.simpleStatement (.start (ps ++ [mark])) =
      some (((Stage.start (ps ++ [mark])).past ps [mark]).extend none [t])) :
    readTokens (ps ++ [mark]) = .ok [t] := by
  have hstatement : outcome (.ref .statement) (.start (ps ++ [mark])) =
      some (((Stage.start (ps ++ [mark])).past (ps ++ [mark]) []).extend none [t]) := by
    rw [outcome_ref]
    exact outcome_alts compoundStatements [] hcompound (outcome_simpleStatements hmark h)
  have hnil : outcome (.ref .statement)
      (((Stage.start (ps ++ [mark])).past (ps ++ [mark]) []).extend none [t]) = none :=
    outcome_none_of_nil rfl rfl
  have hmany : outcome (.many (.ref .statement)) (.start (ps ++ [mark])) =
      some (((Stage.start (ps ++ [mark])).past (ps ++ [mark]) []).extend none [t]) := by
    rw [outcome_many_some hstatement (by simp [Stage.past, Stage.extend, Stage.start]),
      outcome_many_none hnil]
  exact readTokens_eq_ok hmany rfl

end

/-- The rules that are tried in the place of an expression that is a statement, before it is. -/
def rivals : List (Rule Phrase) :=
  compoundStatements ++ (Grammar.importStatements ++ Grammar.keywordStatements ++ [Grammar.typeAlias]) ++
    [.ref .assignment, .ref .yieldExpression]

/-- Tokens that are an expression, and nothing else where a line ends behind them. -/
structure FillsLine (ps : List Token) (u : Tree) (mark : Token) : Prop where
  stands : Grammar.expression.Stands continuations ps u
  noKeyword : Clear [.word Grammar.statementKeywords] ps
  noRival : ∀ x : Stage, x.rest = ps ++ [mark] → ∀ r ∈ rivals, outcome r x = none
  mark : mark.kind = .newline

namespace FillsLine

variable {ps : List Token} {u : Tree} {mark : Token} {x : Stage}

/-- The statement that an expression makes up. -/
abbrev node (ps : List Token) (u : Tree) : Tree := .node .expressionStatement none (spanOf ps) [u]

theorem expressionStatement (h : FillsLine ps u mark) (hrest : x.rest = ps ++ [mark]) :
    outcome Grammar.expressionStatement x = some ((x.past ps [mark]).extend none [node ps u]) := by
  have hcomma : ∀ {r : Rule Phrase} {y : Stage}, Clear [.symbol [","]] y.rest →
      outcome (.seq (Grammar.symbol ",") r) y = none := fun hclear =>
    outcome_seq_none (outcome_token_none_of_clear hclear (List.mem_cons_self ..))
  have hone : (Grammar.commaSeparated Grammar.expression).Stands (.symbol [","] :: continuations)
      ps u :=
    h.stands.seq_nothing (List.subset_cons_self ..) (Rule.Yields.mono
      (Rule.yields_many_nil fun _ hclear => hcomma hclear) (by simp))
  have hlist : (Grammar.commaList Grammar.expression).Stands (.symbol [","] :: continuations)
      ps u :=
    hone.seq_nothing (List.Subset.refl _) (Rule.yields_optional fun _ hclear =>
      outcome_token_none_of_clear hclear (List.mem_cons_self ..))
  have hclear : Clear (.symbol [","] :: continuations) [mark] := by
    refine clear_cons.2 ?_
    simp [continuations, Terminal.accepts, h.mark]
  have hrivals := h.noRival (x.under .expressionStatement []) hrest
  have hahead : outcome (.notAhead (.word Grammar.statementKeywords))
      (x.under .expressionStatement []) = some (x.under .expressionStatement []) := by
    obtain ⟨o, rest, rfl⟩ := List.exists_cons_of_ne_nil h.stands.ne_nil
    have hword := h.noKeyword o rfl _ (List.mem_cons_self ..)
    rw [outcome_notAhead, Stage.look, show (x.under .expressionStatement []).rest = _ from hrest]
    simp [hword]
  have hread : outcome (.seq (.notAhead (.word Grammar.statementKeywords))
      (Grammar.alts [.ref .assignment, .ref .yieldExpression, Grammar.commaList Grammar.expression]))
        (x.under .expressionStatement []) = some (((x.under .expressionStatement []).past
          ps [mark]).extend none [u]) := by
    rw [outcome_seq, hahead, Option.bind_some]
    refine outcome_alts [.ref .assignment, .ref .yieldExpression] [] ?_
      (hlist.yields (x.under .expressionStatement []) _ hrest hclear)
    exact fun r hr => hrivals r (List.mem_append_right _ hr)
  exact Rule.outcome_node_past h.stands.ne_nil hrest hread

/-- The tokens are one simple statement. -/
theorem simpleStatement (h : FillsLine ps u mark) (hrest : x.rest = ps ++ [mark]) :
    outcome Grammar.simpleStatement x = some ((x.past ps [mark]).extend none [node ps u]) := by
  have hend : outcome Grammar.statementEnd ((x.past ps [mark]).extend none [node ps u]) =
      some ((x.past ps [mark]).extend none [node ps u]) := by
    rw [Grammar.statementEnd, outcome_alt, outcome_ahead, Stage.look]
    simp [Stage.past, Stage.extend, Terminal.accepts, h.mark]
  refine outcome_alts (Grammar.importStatements ++ Grammar.keywordStatements ++ [Grammar.typeAlias])
    Grammar.formerStatements ?_ ?_
  · exact fun r hr => h.noRival x hrest r (List.mem_append_left _ (List.mem_append_right _ hr))
  · rw [outcome_seq, h.expressionStatement hrest, Option.bind_some, hend]

/-- The tokens and the end of the line are all that there is of a script. -/
theorem readTokens (h : FillsLine ps u mark) : readTokens (ps ++ [mark]) = .ok [node ps u] := by
  refine readTokens_of_simpleStatement h.mark ?_ (h.simpleStatement rfl)
  intro r hr
  refine h.noRival _ rfl r ?_
  exact List.mem_append_left _ (List.mem_append_left _ hr)

end FillsLine

/-- A text that is cut by itself is cut so where it is the whole script. -/
theorem Cuts.scan_eq {P : Text → Prop} {w : Text} {ls : List Lexeme} (h : Cuts P w ls) (hP : P []) :
    scan w = ls := by
  obtain ⟨rest, -, hcut⟩ := h [] [] w.length Plain.nil hP (by simp)
  have hnil : scanWith rest [] [] = [] := by cases rest <;> rfl
  simpa [scan, hnil] using hcut

/-- A script whose tokens are statements needs no mending. -/
theorem parse_of_readTokens {source : Text} {statements : List Tree}
    (h : readTokens (tokensOf (placedLexemes source)) = .ok statements) : parse source =
      .ok (.node .module none (Position.start.span (Position.start.afterText source)) statements) := by
  rw [parse, statementsOf]
  simp only [h]
  rfl

end Redeploy.Syntax
