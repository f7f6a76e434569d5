import Redeploy.Proofs.Script.Decoding
import Redeploy.Proofs.Syntax.Cutting

set_option autoImplicit false

/-! # Literals

A string that is written as a literal denotes the string again (`decode_quote`). A literal with a quote
at each end is cut into its two delimiters and what stands between them, wherever it is followed by
something else than the quote (`cuts_literal`), unless it has an escape by name or of a line break, which
goes on for as long as the text behind the literal lets it. -/

namespace Redeploy.Literal

/-! ## Reading back -/

/-- What a character is written as is itself, or an escape that stands for it. -/
theorem escapeChar_cases (c : Char) :
    (escapeChar c = [c] ∧ c ≠ '\\' ∧ c ≠ '"' ∧ c ≠ '\n') ∨
      ∃ e, escapeChar c = ['\\', e] ∧ escapeValue? e = some [c] ∧ e ∈ ['\\', '"', 'n', 't', 'r'] := by
  unfold escapeChar
  split
  · next h => exact .inr ⟨'\\', rfl, by rw [h]; rfl, by simp⟩
  split
  · next h => exact .inr ⟨'"', rfl, by rw [h]; rfl, by simp⟩
  split
  · next h => exact .inr ⟨'n', rfl, by rw [h]; rfl, by simp⟩
  split
  · next h => exact .inr ⟨'t', rfl, by rw [h]; rfl, by simp⟩
  split
  · next h => exact .inr ⟨'r', rfl, by rw [h]; rfl, by simp⟩
  · next hback hquote hline _ _ => exact .inl ⟨rfl, hback, hquote, hline⟩

theorem unescape?_flatMap (value : Text) : unescape? (value.flatMap escapeChar) = some value := by
  induction value with
  | nil => rfl
  | cons c value ih =>
    rw [List.flatMap_cons]
    obtain ⟨hplain, hback, -⟩ | ⟨e, hescape, hvalue, -⟩ := escapeChar_cases c
    · rw [hplain, List.singleton_append, unescape?_cons hback, ih]
      rfl
    · rw [hescape, List.cons_append, List.singleton_append, unescape?_escape, hvalue, Option.bind_some, ih]
      rfl

/-- What stands between the quotes does not begin with one. -/
theorem head_flatMap_escapeChar (value : Text) :
    ∀ c ∈ (value.flatMap escapeChar).head?, c ≠ '"' := by
  cases value with
  | nil => simp
  | cons c value =>
    intro d hd
    obtain ⟨hplain, -, hquote, -⟩ | ⟨e, hescape, -⟩ := escapeChar_cases c
    · rw [List.flatMap_cons, hplain] at hd
      obtain rfl : c = d := by simpa using hd
      exact hquote
    · rw [List.flatMap_cons, hescape] at hd
      obtain rfl : '\\' = d := by simpa using hd
      decide

theorem body?_quoteText (value : Text) : body? (quoteText value) = some (value.flatMap escapeChar) :=
  body?_append (d := ['"']) (delimiter?_quoted (.inl rfl) (head_flatMap_escapeChar value))

/-- A string that is written as a literal denotes the string. -/
theorem decode_quote (value : String) : decode? (quote value) = some value := by
  have htext : decodeText? (quoteText value.toList) = some value.toList := by
    have hquoted : ∃ q t, quoteText value.toList = q :: t ∧ isQuote q = true := ⟨'"', _, rfl, rfl⟩
    have hread := decodeText?_append (List.forall_mem_nil _) hquoted
    refine hread.trans ?_
    show (body? (quoteText value.toList)).bind unescape? = _
    rw [body?_quoteText, Option.bind_some, unescape?_flatMap]
  rw [decode?, quote, String.toList_ofList, htext, Option.map_some, String.ofList_toList]

end Redeploy.Literal

namespace Redeploy.Syntax

open Literal (escapeChar quoteText)

/-! ## Cutting a literal -/

/-- What may stand between two quotes. -/
inductive IsBody (q : Char) : Text → Prop
  | nil : IsBody q []
  | plain {c : Char} {t : Text} (hquote : c ≠ q) (hback : c ≠ '\\') (hline : c ≠ '\n')
      (h : IsBody q t) : IsBody q (c :: t)
  | escape {c : Char} {t : Text} (hname : c ≠ 'N') (hline : c ≠ '\n') (hreturn : c ≠ '\r')
      (h : IsBody q t) : IsBody q ('\\' :: c :: t)

/-- A string with one quote at each end. -/
structure IsLiteral (q : Char) (t : Text) : Prop where
  quote : q = '"' ∨ q = '\''
  body : ∃ body, IsBody q body ∧ t = q :: (body ++ [q])

theorem isBody_flatMap (value : Text) : IsBody '"' (value.flatMap escapeChar) := by
  induction value with
  | nil => exact .nil
  | cons c value ih =>
    rw [List.flatMap_cons]
    obtain ⟨hself, hback, hquote, hline⟩ | ⟨e, hescape, -, he⟩ := Literal.escapeChar_cases c
    · rw [hself]
      exact .plain hquote hback hline ih
    · rw [hescape]
      refine .escape ?_ ?_ ?_ ih
      all_goals
        rintro rfl
        exact absurd he (by decide)

/-- A string that is written as a literal. -/
theorem isLiteral_quoteText (value : Text) : IsLiteral '"' (quoteText value) :=
  ⟨.inl rfl, _, isBody_flatMap value, rfl⟩

/-- The delimiter of a literal with a quote at each end. -/
def singleQuoted (q : Char) : Delimiter := ⟨q, false, false, false⟩

section

variable {q : Char} {body t u : Text}

/-- A backslash takes a quote or another backslash with it, and nothing else that may stand between
    two quotes. -/
theorem escapeLength_cons {c : Char} {t : Text} (hname : c ≠ 'N') (hline : c ≠ '\n') (hreturn : c ≠ '\r') :
    Delimiter.escapeLength (c :: t) = if c = '"' ∨ c = '\'' ∨ c = '\\' then 1 else 0 := by
  have hbreak : Delimiter.breakLength (c :: t) = 0 := by
    unfold Delimiter.breakLength
    split
    · next heq => exact absurd (List.cons.inj heq).1 hline
    · next heq => exact absurd (List.cons.inj heq).1 hreturn
    · rfl
  unfold Delimiter.escapeLength
  split
  · next heq => exact absurd (List.cons.inj heq).1 hname
  · next heq =>
    obtain ⟨rfl, rfl⟩ := List.cons.inj heq
    simp [hbreak, or_assoc]
  · next heq => simp at heq

/-- What stands between the quotes ends at the closing one. -/
theorem IsBody.contentLength (h : IsBody q body) (hq : q = '"' ∨ q = '\'') (u : Text) (first : Bool) :
    contentLength (singleQuoted q) 0 first (body ++ q :: u) = (body.length, .quote) := by
  have hcloses : ∀ {c : Char} {t : Text}, c ≠ q → (singleQuoted q).closes (c :: t) = false := by
    intro c t hquote
    show (q == c && List.isPrefixOf [] t) = false
    simp [hquote.symm]
  have hplain : ∀ {c : Char} (first : Bool) (t : Text), c ≠ '\\' → c ≠ q → c ≠ '\n' →
      Syntax.contentLength (singleQuoted q) 0 first (c :: t) =
        ContentEnd.oneMore (Syntax.contentLength (singleQuoted q) 0 false t) := by
    intro c first t hback hquote hline
    have hformat : (singleQuoted q).format = false := rfl
    simp [Syntax.contentLength, hcloses hquote, hback, hline, hformat]
  have hback : '\\' ≠ q := by
    rcases hq with rfl | rfl <;> decide
  induction h generalizing first with
  | nil =>
    show Syntax.contentLength (singleQuoted q) 0 first (q :: u) = _
    have hself : (singleQuoted q).closes (q :: u) = true := by
      show (q == q && List.isPrefixOf [] u) = true
      simp
    simp [Syntax.contentLength, hself]
  | plain hquote hback hline _ ih =>
    rw [List.cons_append, hplain first _ hback hquote hline, ih]
    rfl
  | @escape c t hname hline hreturn _ ih =>
    have hraw : (singleQuoted q).raw = false := rfl
    have hstep : Syntax.contentLength (singleQuoted q) 0 first ('\\' :: c :: (t ++ q :: u)) =
        ContentEnd.oneMore (Syntax.contentLength (singleQuoted q)
          (Delimiter.escapeLength (c :: (t ++ q :: u))) true (c :: (t ++ q :: u))) := by
      simp [Syntax.contentLength, hcloses hback, hraw]
    show Syntax.contentLength (singleQuoted q) 0 first ('\\' :: c :: (t ++ q :: u)) = _
    rw [hstep, escapeLength_cons hname hline hreturn]
    split
    · show ContentEnd.oneMore (ContentEnd.oneMore (Syntax.contentLength (singleQuoted q) 0 true _)) = _
      rw [ih]
      rfl
    · next hother =>
      simp only [not_or] at hother
      have hquote : c ≠ q := by
        rcases hq with rfl | rfl
        · exact hother.1
        · exact hother.2.1
      rw [hplain _ _ hother.2.2 hquote hline, ih]
      rfl

theorem IsBody.head_ne (h : IsBody q body) (hq : q = '"' ∨ q = '\'') : ∀ c ∈ body.head?, c ≠ q := by
  cases h with
  | nil => simp
  | plain hquote => simpa using hquote
  | escape =>
    rcases hq with rfl | rfl <;> simp

/-- What stands between two delimiters: nothing, or one piece of content. -/
def contents (body : Text) : List Lexeme :=
  if body.isEmpty then [] else [⟨.content, body⟩]

theorem flatMap_contents (body : Text) : (contents body).flatMap Lexeme.text = body := by
  unfold contents
  split
  · next h => simpa using (List.isEmpty_iff.1 h).symm
  · simp

theorem opening?_literal (h : IsBody q body) (hq : q = '"' ∨ q = '\'') (hu : ∀ c ∈ u.head?, c ≠ q) :
    Delimiter.opening? (q :: (body ++ q :: u)) = some (1, singleQuoted q) := by
  have htriple : [q, q].isPrefixOf (body ++ q :: u) = false := by
    have hhead := h.head_ne hq
    cases body with
    | nil =>
      cases u with
      | nil => simp [List.isPrefixOf]
      | cons c u =>
        show (q == q && (q == c && List.isPrefixOf [] u)) = false
        simp [(hu c rfl).symm]
    | cons c body =>
      show (q == c && _) = false
      simp [(hhead c rfl).symm]
  have hmarker : (q :: (body ++ q :: u)).takeWhile isMarkerLetter = [] := by
    rcases hq with rfl | rfl <;> rfl
  have hquote : isDelimiterQuote q = true := by
    rcases hq with rfl | rfl <;> rfl
  have hcode : q.toNat ≠ 96 := by
    rcases hq with rfl | rfl <;> decide
  simp [Delimiter.opening?, hmarker, hquote, htriple, Delimiter.size, singleQuoted]

/-- A literal is cut by itself. -/
theorem cuts_literal {ends : List Char} (h : IsBody q body) (hq : q = '"' ∨ q = '\'') (hends : q ∉ ends) :
    Cuts (Begins ends) (q :: (body ++ [q])) (⟨.token .stringStart, [q]⟩ ::
      (contents body ++ [⟨.token .stringEnd, [q]⟩])) := by
  intro modes u steps hplain hP hsteps
  have hu : ∀ c ∈ u.head?, c ≠ q := by
    obtain ⟨d, hd, hhead⟩ := hP
    rintro c hc rfl
    rw [hhead] at hc
    exact hends (Option.some.inj hc ▸ hd)
  have hopening := opening?_literal h hq hu
  have htext : q :: (body ++ [q]) ++ u = [q] ++ (body ++ ([q] ++ u)) := by simp
  rw [htext] at hsteps ⊢
  have hstart : nextLexeme modes ([q] ++ (body ++ ([q] ++ u))) =
      (.token .stringStart, 1, .quoted (singleQuoted q) :: modes) := by
    rw [hplain.nextLexeme]
    show nextInCode modes (q :: (body ++ q :: u)) = _
    unfold nextInCode
    simp only [hopening, hplain.noteProgress]
    rcases hq with rfl | rfl <;> rfl
  have hend : ∀ steps, ([q] ++ u).length ≤ steps → ∃ rest, u.length ≤ rest ∧
      scanWith steps (.quoted (singleQuoted q) :: modes) ([q] ++ u) =
        ⟨.token .stringEnd, [q]⟩ :: scanWith rest modes u := by
    intro steps hsteps
    refine scanWith_lexeme (List.cons_ne_nil _ _) hsteps ?_
    have hlength := (IsBody.nil (q := q)).contentLength hq u true
    show nextInString (singleQuoted q) modes ([] ++ q :: u) = _
    unfold nextInString
    rw [hlength]
    rfl
  obtain ⟨rest, hrest, hcut⟩ := scanWith_lexeme (List.cons_ne_nil _ _) hsteps hstart
  rw [hcut]
  cases body with
  | nil =>
    obtain ⟨rest', hrest', hcut'⟩ := hend rest hrest
    exact ⟨rest', hrest', by rw [List.nil_append, hcut']; rfl⟩
  | cons c body =>
    have hcontent : nextLexeme (.quoted (singleQuoted q) :: modes) (c :: body ++ ([q] ++ u)) =
        (.content, (c :: body).length, .quoted (singleQuoted q) :: modes) := by
      have hlength := h.contentLength hq u true
      show nextInString (singleQuoted q) modes (c :: body ++ q :: u) = _
      unfold nextInString
      rw [hlength]
      rfl
    obtain ⟨rest', hrest', hcut'⟩ := scanWith_lexeme (List.cons_ne_nil c body) hrest hcontent
    obtain ⟨rest'', hrest'', hcut''⟩ := hend rest' hrest'
    exact ⟨rest'', hrest'', by rw [hcut', hcut'']; rfl⟩

end

end Redeploy.Syntax
