import Redeploy.Proofs.Syntax.Scan

set_option autoImplicit false

/-! # Code and strings

Where the scan reads code, and not the content of a string or of a format. Only a mark that opens a
string or a format, or that ends an interpolation, is followed by content (`leavesCode_nextLexeme`), so
behind any other token there is no content before the next such mark (`isCode_of_scan`). -/

namespace Redeploy.Syntax

/-- Whether the next piece of a script is neither part of a string nor of a format. -/
def inCode : List Mode → Bool
  | .quoted _ :: _ | .format :: _ => false
  | _ => true

theorem inCode_noteProgress (isWord : Bool) (modes : List Mode) :
    inCode (noteProgress isWord modes) = inCode modes := by
  unfold noteProgress
  split <;> rfl

/-- Strings and brackets have been opened in code. -/
def WellNested : List Mode → Prop
  | [] => True
  | .quoted _ :: modes | .bracket :: modes => inCode modes = true ∧ WellNested modes
  | _ :: modes => WellNested modes

theorem WellNested.noteProgress {modes : List Mode} (h : WellNested modes) (isWord : Bool) :
    WellNested (noteProgress isWord modes) := by
  unfold Syntax.noteProgress
  split
  · exact h
  · exact h

theorem WellNested.closeBracket {modes : List Mode} (h : WellNested modes)
    (hcode : inCode modes = true) :
    WellNested (closeBracket modes) ∧ inCode (closeBracket modes) = true := by
  unfold Syntax.closeBracket
  split
  · exact ⟨h.2.noteProgress false, by rw [inCode_noteProgress, h.1]⟩
  · exact ⟨h.noteProgress false, by rw [inCode_noteProgress, hcode]⟩

/-- The tokens that are followed by the content of a string or of a format, or that are none of the
    language. -/
def opensContent (k : TokenKind) : Bool :=
  k == .stringStart || k == .interpolationEnd || k == .formatStart || k == .bad

/-- Whether a lexeme is followed by code, given whether it stands in code itself. -/
def keepsCode (code : Bool) : LexemeKind → Bool
  | .token k => !opensContent k
  | .content => false
  | _ => code

/-- A step of the scan leaves the modes well nested, and code behind where `keepsCode` says so. -/
structure LeavesCode (modes : List Mode) (r : LexemeKind × Nat × List Mode) : Prop where
  nested : WellNested r.2.2
  code : keepsCode (inCode modes) r.1 = true → inCode r.2.2 = true

variable {modes : List Mode}

theorem leavesCode_nextSymbol (h : WellNested modes) (hcode : inCode modes = true) (t : Text) :
    LeavesCode modes (nextSymbol modes t) := by
  have hnote : LeavesCode modes (.token .symbol, 0, noteProgress false modes) :=
    ⟨h.noteProgress false, fun _ => by rw [inCode_noteProgress, hcode]⟩
  unfold nextSymbol
  simp only
  split
  · exact ⟨h, by simp [keepsCode, opensContent]⟩
  · split
    · exact ⟨h, fun _ => hcode⟩
    · exact ⟨hnote.nested, fun _ => hnote.code rfl⟩
  · split
    · exact ⟨hnote.nested, fun _ => hnote.code rfl⟩
    · exact ⟨h, by simp [keepsCode, opensContent]⟩
  · split
    · exact ⟨hnote.nested, fun _ => hnote.code rfl⟩
    · split
      · exact ⟨⟨hnote.code rfl, hnote.nested⟩, fun _ => rfl⟩
      · split
        · obtain ⟨hnested, hcode'⟩ := h.closeBracket hcode
          exact ⟨hnested, fun _ => hcode'⟩
        · exact ⟨hnote.nested, fun _ => hnote.code rfl⟩
  · exact ⟨h, fun _ => hcode⟩

theorem leavesCode_nextInCode (h : WellNested modes) (hcode : inCode modes = true) (t : Text) :
    LeavesCode modes (nextInCode modes t) := by
  have hsame : ∀ kind n, LeavesCode modes (kind, n, modes) := fun _ _ => ⟨h, fun _ => hcode⟩
  have hnote : ∀ isWord kind n, LeavesCode modes (kind, n, noteProgress isWord modes) :=
    fun isWord _ _ => ⟨h.noteProgress isWord, fun _ => by rw [inCode_noteProgress, hcode]⟩
  unfold nextInCode
  split
  · exact hsame _ _
  split
  · exact hsame _ _
  split
  · exact hsame _ _
  split
  · exact hsame _ _
  split
  · split
    · exact hsame _ _
    · split <;> exact hsame _ _
  split
  · exact ⟨⟨(hnote false .blank 0).code (by simp [keepsCode, hcode]), h.noteProgress false⟩,
      by simp [keepsCode, opensContent]⟩
  split
  · exact hnote _ _ _
  · simp only
    split
    · exact leavesCode_nextSymbol h hcode _
    · exact hnote _ _ _

theorem leavesCode_nextInString {d : Delimiter} (h : WellNested (.quoted d :: modes)) (t : Text) :
    LeavesCode (.quoted d :: modes) (nextInString d modes t) := by
  unfold nextInString
  split
  · exact ⟨h.2, fun _ => h.1⟩
  · exact ⟨h, fun _ => rfl⟩
  · refine ⟨?_, by simp [keepsCode, opensContent]⟩
    split
    · exact h.2
    · exact h
  · exact ⟨h, by simp [keepsCode]⟩

theorem leavesCode_nextInFormat (h : WellNested (.format :: modes)) (t : Text) :
    LeavesCode (.format :: modes) (nextInFormat modes t) := by
  unfold nextInFormat
  split
  · exact ⟨h, fun _ => rfl⟩
  · exact ⟨h, by simp [keepsCode, opensContent]⟩
  · exact ⟨h, by simp [keepsCode, inCode]⟩
  · exact ⟨h, by simp [keepsCode]⟩

theorem leavesCode_nextLexeme (h : WellNested modes) (t : Text) :
    LeavesCode modes (nextLexeme modes t) := by
  unfold nextLexeme
  split
  · exact leavesCode_nextInString h t
  · exact leavesCode_nextInFormat h t
  · next hquoted hformat =>
    refine leavesCode_nextInCode h ?_ t
    unfold inCode
    split
    · exact absurd rfl (hquoted _ _)
    · exact absurd rfl (hformat _)
    · rfl

/-! ## Lexemes in code -/

/-- Whether a lexeme is blank, a comment or a line break, be it hidden or not. -/
def Lexeme.isSpace (l : Lexeme) : Bool :=
  l.kind == .blank || l.kind == .continuation || l.kind == .comment || l.kind == .lineBreak

/-- A lexeme as it is found in code: no content, and no line break in the middle of a space. -/
def Lexeme.IsCode (l : Lexeme) : Prop :=
  l.kind ≠ .content ∧ (l.isSpace = true → '\n' ∉ l.text.dropLast)

theorem not_mem_dropLast_takeWhile {p : Char → Bool} (hp : p '\n' = false) (t : Text) :
    '\n' ∉ (t.takeWhile p).dropLast := by
  intro h
  have := List.all_eq_true.1 (List.all_takeWhile (p := p) (l := t)) _ (List.dropLast_subset _ h)
  rw [hp] at this
  simp at this

theorem nextSymbol_isToken (modes : List Mode) (t : Text) : ∃ k, (nextSymbol modes t).1 = .token k := by
  unfold nextSymbol
  simp only
  split <;> (repeat' split) <;> exact ⟨_, rfl⟩

theorem isCode_nextInCode (modes : List Mode) (c : Char) (t : Text) :
    Lexeme.IsCode ⟨(nextInCode modes (c :: t)).1, c :: t.take ((nextInCode modes (c :: t)).2.1 - 1)⟩ := by
  have hone : ∀ kind, kind ≠ .content → Lexeme.IsCode ⟨kind, c :: t.take (1 - 1)⟩ := fun kind hkind =>
    ⟨hkind, by simp⟩
  have htoken : ∀ k text, Lexeme.IsCode ⟨.token k, text⟩ := fun k text => ⟨by simp, by simp [Lexeme.isSpace]⟩
  have hrun : ∀ kind (p : Char → Bool), kind ≠ .content → p c = true → p '\n' = false →
      Lexeme.IsCode ⟨kind, c :: t.take (runLength p (c :: t) - 1)⟩ := by
    intro kind p hkind hc hp
    have htake : c :: t.take (runLength p (c :: t) - 1) = (c :: t).takeWhile p := by
      rw [← take_runLength, ← runLength_pos hc]
      cases runLength p (c :: t) <;> simp
    rw [htake]
    exact ⟨hkind, fun _ => not_mem_dropLast_takeWhile hp _⟩
  unfold nextInCode
  simp only
  split
  · exact hone _ (by simp)
  split
  · next hgap => exact hrun _ _ (by simp) hgap (by decide)
  split
  · next hc => exact hrun _ _ (by simp) (by simp [hc]) (by simp)
  split
  · next hc =>
    subst hc
    split
    · exact hone _ (by simp)
    · split
      · exact htoken _ _
      · next hbreak =>
        -- the hidden line break is the last character
        refine ⟨by simp, fun _ => ?_⟩
        unfold Delimiter.breakLength at hbreak ⊢
        split
        · simp
        · simp
        · simp_all
  split
  · exact htoken _ _
  split
  · exact htoken _ _
  · split
    · obtain ⟨k, hk⟩ := nextSymbol_isToken modes (c :: t)
      rw [hk]
      exact htoken _ _
    · exact htoken _ _

/-- The kinds of the layout marks, which the scan does not find. -/
def isLayoutKind (k : TokenKind) : Bool :=
  k == .newline || k == .indent || k == .dedent

theorem nextSymbol_ne_layout (modes : List Mode) (t : Text) {k : TokenKind}
    (hk : isLayoutKind k = true) : (nextSymbol modes t).1 ≠ .token k := by
  unfold nextSymbol
  simp only
  split <;> (repeat' split) <;> rintro ⟨⟩ <;> simp [isLayoutKind] at hk

theorem nextInCode_ne_layout (modes : List Mode) (t : Text) {k : TokenKind}
    (hk : isLayoutKind k = true) : (nextInCode modes t).1 ≠ .token k := by
  unfold nextInCode
  split
  · rintro ⟨⟩
    simp [isLayoutKind] at hk
  · simp only
    (repeat' split) <;> first | exact nextSymbol_ne_layout modes _ hk | skip
    all_goals
      rintro ⟨⟩
      try simp [isLayoutKind] at hk

theorem nextLexeme_ne_layout (modes : List Mode) (t : Text) {k : TokenKind}
    (hk : isLayoutKind k = true) : (nextLexeme modes t).1 ≠ .token k := by
  unfold nextLexeme
  split
  · unfold nextInString
    split <;> rintro ⟨⟩ <;> simp [isLayoutKind] at hk
  · unfold nextInFormat
    split <;> rintro ⟨⟩ <;> simp [isLayoutKind] at hk
  · exact nextInCode_ne_layout _ t hk

theorem ne_layout_of_mem_scanWith {steps : Nat} {modes : List Mode} {t : Text} {l : Lexeme}
    (h : l ∈ scanWith steps modes t) {k : TokenKind} (hk : isLayoutKind k = true) :
    l.kind ≠ .token k := by
  induction steps generalizing modes t with
  | zero => simp [scanWith] at h
  | succ steps ih =>
    cases t with
    | nil => simp [scanWith] at h
    | cons c t =>
      simp only [scanWith, List.mem_cons] at h
      rcases h with rfl | h
      · exact nextLexeme_ne_layout modes (c :: t) hk
      · exact ih h

theorem nextLexeme_of_inCode (h : inCode modes = true) (t : Text) :
    nextLexeme modes t = nextInCode modes t := by
  unfold nextLexeme
  split
  · simp [inCode] at h
  · simp [inCode] at h
  · rfl

/-- The first lexemes of a scan, and what the scan goes on with. -/
theorem exists_of_scanWith_append {steps : Nat} {t : Text} {A B : List Lexeme}
    (h : scanWith steps modes t = A ++ B) (hnested : WellNested modes) :
    ∃ steps' modes' t', scanWith steps' modes' t' = B ∧ WellNested modes' := by
  induction A generalizing steps modes t with
  | nil => exact ⟨steps, modes, t, h, hnested⟩
  | cons l A ih =>
    cases steps with
    | zero => simp [scanWith] at h
    | succ steps =>
      cases t with
      | nil => simp [scanWith] at h
      | cons c t =>
        have hleaves := leavesCode_nextLexeme hnested (c :: t)
        simp only [scanWith, List.cons_append, List.cons.injEq] at h
        exact ih h.2 hleaves.nested

/-- The lexemes of a scan that begins in code, up to a mark that opens a string or a format. -/
theorem isCode_of_scanWith {steps : Nat} {t : Text} {G H : List Lexeme}
    (h : scanWith steps modes t = G ++ H) (hnested : WellNested modes) (hcode : inCode modes = true)
    (hG : ∀ l ∈ G, ∀ k, l.kind = .token k → opensContent k = false) : ∀ l ∈ G, l.IsCode := by
  induction G generalizing steps modes t with
  | nil => simp
  | cons l G ih =>
    cases steps with
    | zero => simp [scanWith] at h
    | succ steps =>
      cases t with
      | nil => simp [scanWith] at h
      | cons c t =>
        have hleaves := leavesCode_nextLexeme hnested (c :: t)
        have hl := isCode_nextInCode modes c t
        rw [← nextLexeme_of_inCode hcode] at hl
        simp only [scanWith, List.cons_append, List.cons.injEq] at h
        obtain ⟨hl', hrest⟩ := h
        rw [hl'] at hl
        have hkeeps : keepsCode (inCode modes) (nextLexeme modes (c :: t)).1 = true := by
          have hkind : (nextLexeme modes (c :: t)).1 = l.kind := congrArg Lexeme.kind hl'
          rw [hkind, hcode]
          unfold keepsCode
          split
          · next k hk => simp [hG l (List.mem_cons_self ..) k hk]
          · next hk => exact absurd hk hl.1
          · rfl
        refine List.forall_mem_cons.2 ⟨hl, ih hrest hleaves.nested (hleaves.code hkeeps) ?_⟩
        exact fun l' hl' => hG l' (List.mem_cons_of_mem _ hl')

/-- Behind a token that opens neither a string nor a format nor ends an interpolation, there is code. -/
theorem isCode_of_scan {source : Text} {A G H : List Lexeme} {l : Lexeme} {k : TokenKind}
    (h : scan source = A ++ l :: (G ++ H)) (hl : l.kind = .token k) (hk : opensContent k = false)
    (hG : ∀ l ∈ G, ∀ k, l.kind = .token k → opensContent k = false) : ∀ l ∈ G, l.IsCode := by
  obtain ⟨steps, modes, t, hscan, hnested⟩ := exists_of_scanWith_append h trivial
  cases steps with
  | zero => simp [scanWith] at hscan
  | succ steps =>
    cases t with
    | nil => simp [scanWith] at hscan
    | cons c t =>
      have hleaves := leavesCode_nextLexeme hnested (c :: t)
      simp only [scanWith, List.cons.injEq] at hscan
      obtain ⟨rfl, hrest⟩ := hscan
      refine isCode_of_scanWith hrest hleaves.nested (hleaves.code ?_) hG
      have hkind : (nextLexeme modes (c :: t)).1 = .token k := hl
      rw [hkind, keepsCode, hk]
      rfl

end Redeploy.Syntax
