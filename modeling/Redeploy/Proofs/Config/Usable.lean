import Redeploy.Proofs.Block.LoadCall
import Redeploy.Proofs.Script.ImportText
import Redeploy.Proofs.Script.Spelling
import Redeploy.Proofs.Script.SafePlace
import Redeploy.Proofs.Syntax.CallLine
import Redeploy.Proofs.Text.Pieces

set_option autoImplicit false

/-! # Settings that can be used

Settings are checked so that the code that a migration writes can be read. The check asks for letters and
digits, and scripts for the characters of identifiers; where these agree on the words of the helper, and
the helper is called by none of the reserved words, every load call reads back as it was written and
the import of the helper is found again (`usable_of_validate`). Elsewhere the check lets settings pass that
no script can be written with (`accepted_unreadable`). -/

namespace Redeploy

open Syntax Script

/-! ## What the check says -/

/-- The words that the texts of the helper are made of. -/
def LoadHelper.words (h : LoadHelper) : List String :=
  pathSegments h.module ++ [h.name, h.method]

/-- What the check of a helper does not ask for: letters that begin names of a script and letters and
    digits that go on with them, and a helper that is called by none of the reserved words and comes from
    a module of its own. -/
structure LoadHelper.IsWritable (h : LoadHelper) : Prop where
  starts : ∀ w ∈ h.words, ∀ c ∈ w.toList.head?, isAlphabetic c = true → startsIdentifier c = true
  continues : ∀ w ∈ h.words, ∀ c ∈ w.toList, isAlphanumeric c = true → continuesIdentifier c = true
  name : h.name ∉ Grammar.statementKeywords ++ operandKeywords
  module : (pathSegments h.module).head? ≠ some "__future__"

namespace Config

section

variable {h : LoadHelper} {w : String}

/-- What the check of a helper makes sure of. -/
theorem checkHelper_eq_ok (hvalid : checkHelper h = .ok ()) :
    isIdentifierPath h.module = true ∧
      ∀ w ∈ [h.name, h.method], isIdentifierPath w = true ∧ '.' ∉ w.toList := by
  simp only [checkHelper, checkPath, bind, Except.bind] at hvalid
  repeat' split at hvalid
  all_goals simp_all

/-- The words of a helper that can be used are identifiers. -/
theorem isIdentifier_of_checkHelper (hvalid : checkHelper h = .ok ()) (hw : w ∈ h.words) :
    isIdentifier w.toList = true := by
  obtain ⟨hmodule, hplain⟩ := checkHelper_eq_ok hvalid
  rcases List.mem_append.1 hw with hw | hw
  · obtain ⟨t, ht, rfl⟩ := List.mem_map.1 hw
    rw [String.toList_ofList]
    exact List.all_eq_true.1 hmodule t ht
  · obtain ⟨hpath, hpoint⟩ := hplain w hw
    rw [isIdentifierPath, Text.splitOn_of_not_mem hpoint] at hpath
    simpa using hpath

/-- The words of a helper that can be used and written are identifiers of a script. -/
theorem isIdentifier_of_isWritable (hvalid : checkHelper h = .ok ()) (hwritable : h.IsWritable)
    (hw : w ∈ h.words) : IsIdentifier w.toList := by
  have hchecked := isIdentifier_of_checkHelper hvalid hw
  have hstarts := hwritable.starts w hw
  have hcontinues := hwritable.continues w hw
  cases hlist : w.toList with
  | nil => simp [hlist, isIdentifier] at hchecked
  | cons c t =>
    rw [hlist] at hchecked hstarts hcontinues
    simp only [isIdentifier, Bool.and_eq_true, Bool.or_eq_true, beq_iff_eq, List.all_eq_true] at hchecked
    refine ⟨⟨c, rfl, ?_⟩, fun d hd => ?_⟩
    · rcases hchecked.1 with rfl | hletter
      · decide
      · exact hstarts c rfl hletter
    · rcases List.mem_cons.1 hd with rfl | hmem
      · rcases hchecked.1 with rfl | hletter
        · decide
        · exact hcontinues d hd (by simp [isAlphanumeric, hletter])
      · rcases hchecked.2 d hmem with rfl | hletter
        · decide
        · exact hcontinues d hd hletter

end

/-! ## The import of the helper -/

/-- The import of a helper that can be written is read as this import. -/
theorem parse_requiredImport {h : LoadHelper} (hvalid : checkHelper h = .ok ())
    (hwritable : h.IsWritable) : ∃ s t i,
      parse h.requiredImport.text.toList = .ok (.node .module none s [t]) ∧
      t.kind = .importFromStatement ∧ importsOf h.requiredImport.text.toList t = [i] ∧
      h.requiredImport.isSatisfiedBy i = true := by
  have hwords := fun w (hw : w ∈ h.words) => isIdentifier_of_isWritable hvalid hwritable hw
  obtain ⟨ls, hpath, htext, hhead⟩ := exists_isPath h.module.toList fun w hw => by
    have := hwords (String.ofList w) (List.mem_append_left _ (List.mem_map.2 ⟨w, hw, rfl⟩))
    rwa [String.toList_ofList] at this
  have hname : IsPath [⟨.token .word, h.name.toList⟩] := .name (hwords _ (by simp [LoadHelper.words]))
  have hpresent : ∀ l ∈ ls.head?, l.text ≠ "__future__".toList := by
    intro l hl heq
    apply hwritable.module
    rw [pathSegments, List.head?_map, ← hhead, Option.mem_def.1 hl]
    simp [heq]
  obtain ⟨s, t, hparse, hkind, himports⟩ :=
    parse_importFrom hpath hpresent hname.isSpelled (List.forall_mem_nil _)
  have hsource : ∀ path newName, (importLexemes ls ⟨[⟨.token .word, h.name.toList⟩], path, newName⟩
      []).flatMap Lexeme.text = h.requiredImport.text.toList := fun _ _ => by
    simp [importLexemes, behindComma, htext, LoadHelper.requiredImport, RequiredImport.text]
  rw [hsource] at hparse himports
  refine ⟨s, t, _, hparse, hkind, himports, ?_⟩
  simp [RequiredImport.isSatisfiedBy, LoadHelper.requiredImport, Import.boundName, htext]

/-! ## Load calls -/

theorem newline_not_mem_quoteText (value : Text) : '\n' ∉ Literal.quoteText value := by
  simp only [Literal.quoteText, List.cons_append, List.mem_cons, List.mem_append, List.mem_flatMap,
    List.not_mem_nil, or_false]
  rintro (h | ⟨c, -, hc⟩ | h)
  · simp at h
  · obtain ⟨hplain, -, -, hne⟩ | ⟨e, hescape, -, he⟩ := Literal.escapeChar_cases c
    · rw [hplain, List.mem_singleton] at hc
      exact hne hc.symm
    · simp only [hescape, List.mem_cons, List.not_mem_nil, or_false] at hc he
      rcases hc with hc | rfl
      · simp at hc
      · simp at he
  · simp at h

theorem newline_not_mem_of_isIdentifier {w : Text} (h : IsIdentifier w) : '\n' ∉ w := fun hmem =>
  absurd (h.2 _ hmem) (by decide)

/-- The text of a load call. -/
theorem render_loadCall (h : LoadHelper) (slug : String) : (h.loadCall slug).render.toList =
    h.name.toList ++ '.' :: h.method.toList ++ '(' :: ((Literal.quote slug).toList ++ [')']) := by
  simp [LoadHelper.loadCall, Expr.literal, Expr.render, Expr.renderArgs, Expr.renderKeywords,
    Expr.isAtomic, Expr.guardReceiver]

theorem newline_not_mem_loadCall {h : LoadHelper} (hname : IsIdentifier h.name.toList)
    (hmethod : IsIdentifier h.method.toList) (slug : String) :
    '\n' ∉ (h.loadCall slug).render.toList := by
  have hname := newline_not_mem_of_isIdentifier hname
  have hmethod := newline_not_mem_of_isIdentifier hmethod
  have hquote := newline_not_mem_quoteText slug.toList
  rw [render_loadCall, Literal.quote, String.toList_ofList]
  simp [hname, hmethod, hquote]

/-- Lexemes of a text without a line feed are no line breaks. -/
theorem kind_ne_lineBreak {t : Text} (ht : '\n' ∉ t) {ls : List Lexeme} (hls : scan t = ls)
    (htext : ls.flatMap Lexeme.text = t) : ∀ l ∈ ls, l.kind ≠ .lineBreak := by
  intro l hl hkind
  apply ht
  rw [← htext, List.mem_flatMap]
  exact ⟨l, hl, by rw [text_of_lineBreak (hls ▸ hl : l ∈ scan t) hkind]; simp⟩

/-- A load call of a helper that can be written is read as the call that was written. -/
theorem parse_loadCall {h : LoadHelper} (hvalid : checkHelper h = .ok ()) (hwritable : h.IsWritable)
    (slug : String) : ∃ s s' x,
      parse (h.loadCall slug).render.toList =
        .ok (.node .module none s [.node .expressionStatement none s' [x]]) ∧
      (lower (h.loadCall slug).render.toList x).unplaced = (h.loadCall slug).asRead := by
  have hwords := fun w (hw : w ∈ h.words) => isIdentifier_of_isWritable hvalid hwritable hw
  have hid : IsIdentifier h.name.toList := hwords _ (by simp [LoadHelper.words])
  have hmethod : IsIdentifier h.method.toList := hwords _ (by simp [LoadHelper.words])
  have hkeyword : ∀ v ∈ Grammar.statementKeywords, h.name.toList ≠ v.toList := fun v hv heq =>
    hwritable.name (List.mem_append_left _ (String.toList_inj.1 heq ▸ hv))
  have hoperand : IsName h.name := ⟨hid, fun hmem => hwritable.name (List.mem_append_right _ hmem)⟩
  -- what the call is, whatever its lexemes are
  have hslug : Spelled IsOperand valueEnds (Literal.quote slug).toList (Means (.literal slug)) :=
    spelled_quote slug none (by decide)
  have hargs : SpelledArguments (argumentsOf [.literal slug] []) :=
    List.forall_mem_singleton.2 (hslug.imp (fun _ _ ht => ht.isExpression) (List.Subset.refl _)).positional
  obtain ⟨ls, hcuts, htext, hall⟩ := ((spelled_name hoperand none).member (by decide) hmethod
    none).exists_call (by decide) hargs none
  have hsource : h.name.toList ++ '.' :: h.method.toList ++
      '(' :: (argumentsText (argumentsOf [.literal slug] []) ++ [')']) =
        (h.loadCall slug).render.toList := by
    rw [render_loadCall]
    simp [argumentsOf, argumentsText, moreText, Argument.render, Expr.literal, Expr.render]
  rw [hsource] at hcuts htext
  obtain ⟨x, hx, hkind, -, hmeans⟩ := hall [] []
  rw [List.nil_append, List.append_nil, hsource] at hmeans
  -- which lexemes these are
  obtain ⟨qs, hquote, -⟩ := hslug.reads
  have hlexemes := (cuts_word hid).append ((cuts_attribute hmethod).append
    (hquote.parenthesized fun u => begins_cons (by decide) u) fun v _ => begins_cons (by decide) _)
    fun v _ => begins_cons (by decide) _
  rw [← List.append_assoc, ← render_loadCall] at hlexemes
  have hscan := hcuts.scan_eq trivial
  have hline := kind_ne_lineBreak (newline_not_mem_loadCall hid hmethod slug) hscan htext
  have hshape : scan (h.loadCall slug).render.toList = ⟨.token .word, h.name.toList⟩ ::
      ⟨.token .symbol, ['.']⟩ :: ((⟨.token .word, h.method.toList⟩ :: ⟨.token .symbol, ['(']⟩ :: qs) ++
        [⟨.token .symbol, [')']⟩]) := hlexemes.scan_eq trivial
  obtain ⟨s, s', hparse⟩ := parse_namedCall hshape (hscan ▸ hline) (hscan ▸ hx) hkind hkeyword
  exact ⟨s, s', x, hparse, hmeans⟩

/-! ## All of the settings -/

/-- With settings that pass the check, and a helper whose names are names of a script, whatever a
    migration writes for a slug is read back: the load call as an expression that is the call, and
    the import as one that brings the helper into the script. -/
theorem usable_of_validate {c : Config} (hvalid : c.validate = .ok ()) (hwritable : c.loadHelper.IsWritable)
    (slug : String) :
    (∃ s s' x, parse (c.loadHelper.loadCall slug).render.toList =
        .ok (.node .module none s [.node .expressionStatement none s' [x]]) ∧
      (lower (c.loadHelper.loadCall slug).render.toList x).unplaced =
        (c.loadHelper.loadCall slug).asRead) ∧
    ∃ s t i, parse c.loadHelper.requiredImport.text.toList = .ok (.node .module none s [t]) ∧
      t.kind = .importFromStatement ∧ importsOf c.loadHelper.requiredImport.text.toList t = [i] ∧
      c.loadHelper.requiredImport.isSatisfiedBy i = true :=
  ⟨parse_loadCall (checkHelper_of_validate hvalid) hwritable slug,
    parse_requiredImport (checkHelper_of_validate hvalid) hwritable⟩

/-- A helper whose names are words that only begin some statements. -/
theorem usable_with_soft_keyword :
    let c : Config := ⟨1, ["prefecthq/prefect"], ⟨"match.type", "match", "async"⟩, true⟩
    (∃ s s' x, parse (c.loadHelper.loadCall "s3/a\n").render.toList =
        .ok (.node .module none s [.node .expressionStatement none s' [x]]) ∧
      (lower (c.loadHelper.loadCall "s3/a\n").render.toList x).unplaced =
        (c.loadHelper.loadCall "s3/a\n").asRead) ∧
    ∃ s t i, parse c.loadHelper.requiredImport.text.toList = .ok (.node .module none s [t]) ∧
      t.kind = .importFromStatement ∧ importsOf c.loadHelper.requiredImport.text.toList t = [i] ∧
      c.loadHelper.requiredImport.isSatisfiedBy i = true := by
  have hvalid : (⟨1, ["prefecthq/prefect"], ⟨"match.type", "match", "async"⟩, true⟩ : Config).validate =
      .ok () := by decide +kernel
  have hwords : (["match", "type", "match", "async"].all fun w =>
      (w.toList.head?.all fun c => !isAlphabetic c || startsIdentifier c) &&
        w.toList.all fun c => !isAlphanumeric c || continuesIdentifier c) = true := by decide +kernel
  simp only [List.all_eq_true, Bool.and_eq_true, Option.all_eq_true, Bool.or_eq_true,
    Bool.not_eq_true'] at hwords
  refine usable_of_validate hvalid ⟨fun w hw c hc hletter => ?_, fun w hw c hc hletter => ?_,
    by decide +kernel, by decide +kernel⟩ _
  · exact ((hwords w hw).1 c hc).resolve_left (by simp [hletter])
  · exact ((hwords w hw).2 c hc).resolve_left (by simp [hletter])

/-- The check lets a name pass that ends in a number that is no part of names in scripts: neither the
    load calls nor the import of such a helper can be read. -/
theorem accepted_unreadable :
    let c : Config := ⟨1, ["prefecthq/prefect"], ⟨"prefect.blocks.core", "Block²", "load"⟩, true⟩
    c.validate = .ok () ∧
    (∀ tree, parse (c.loadHelper.loadCall "s3/a").render.toList ≠ .ok tree) ∧
    ∀ tree, parse c.loadHelper.requiredImport.text.toList ≠ .ok tree := by
  exact ⟨by decide +kernel, ne_ok_of_isNone_toOption (by decide +kernel),
    ne_ok_of_isNone_toOption (by decide +kernel)⟩

end Config

end Redeploy
