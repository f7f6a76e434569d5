import Redeploy.Proofs.Script.ImportText
import Redeploy.Proofs.Syntax.Runs

set_option autoImplicit false

/-! # Imported names as they are written

The lexemes that an imported name of a script has been read from spell this name wherever they stand, as
long as there is no line break among them (`exists_isSpelled`). Space of other kinds
between the words of a name does no harm, and a name is cut out of a script together with it. -/

namespace Redeploy.Syntax

/-! ## Tokens without their places -/

section

variable {q : Position} {ls : List Lexeme} {ts us : List Token} {o : Token}

/-- What a token says, wherever it stands. -/
def Token.wording (o : Token) : TokenKind × Text := (o.kind, o.text)

/-- Lexemes that are no tokens. -/
def Silent (ls : List Lexeme) : Prop := ∀ l ∈ ls, ∀ kind, l.kind ≠ .token kind

theorem tokensFrom_silent {l : Lexeme} (hl : ∀ kind, l.kind ≠ .token kind) (q : Position)
    (ls : List Lexeme) : tokensFrom q (l :: ls) = tokensFrom (q.afterText l.text) ls :=
  List.filterMap_cons_none (token?_of_silent hl)

theorem Silent.tokensFrom_eq_nil (h : Silent ls) (q : Position) : tokensFrom q ls = [] := by
  induction ls generalizing q with
  | nil => rfl
  | cons l ls ih =>
    obtain ⟨hl, hls⟩ := List.forall_mem_cons.1 h
    rw [tokensFrom_silent hl, ih hls]

/-- The tokens of some lexemes say the same wherever these stand. -/
theorem wording_tokensFrom (q r : Position) (ls : List Lexeme) :
    (tokensFrom q ls).map Token.wording = (tokensFrom r ls).map Token.wording := by
  induction ls generalizing q r with
  | nil => rfl
  | cons l ls ih =>
    obtain ⟨kind, w⟩ := l
    by_cases hkind : ∃ k, kind = .token k
    · obtain ⟨k, rfl⟩ := hkind
      rw [tokensFrom_cons, tokensFrom_cons, List.map_cons, List.map_cons, ih]
      rfl
    · have hsilent : ∀ k, (⟨kind, w⟩ : Lexeme).kind ≠ .token k := fun k hk => hkind ⟨k, hk⟩
      rw [tokensFrom_silent hsilent, tokensFrom_silent hsilent, ih]

theorem Attributes.congr (h : Attributes ts) (hus : ts.map Token.wording = us.map Token.wording) :
    Attributes us := by
  induction h generalizing us with
  | nil =>
    obtain rfl := List.map_eq_nil_iff.1 hus.symm
    exact .nil
  | @cons o n ts ho hn _ ih =>
    obtain ⟨⟨kind, text, span⟩, vs, rfl, ho', hvs⟩ := List.map_eq_cons_iff.1 hus.symm
    obtain ⟨⟨kind', text', span'⟩, ws, rfl, hn', hws⟩ := List.map_eq_cons_iff.1 hvs
    obtain ⟨rfl, rfl⟩ := Prod.mk.inj ho'
    obtain ⟨rfl, rfl⟩ := Prod.mk.inj hn'
    exact .cons ho hn (ih hws.symm)

theorem IsDotted.congr (h : IsDotted ts) (hus : ts.map Token.wording = us.map Token.wording) :
    IsDotted us := by
  obtain ⟨hn, hts⟩ := h
  obtain ⟨⟨kind, text, span⟩, vs, rfl, hn', hvs⟩ := List.map_eq_cons_iff.1 hus.symm
  obtain ⟨rfl, rfl⟩ := Prod.mk.inj hn'
  exact .mk hn (hts.congr hvs.symm)

/-- The last token of some lexemes is one of them, and what follows that one is silent. -/
theorem exists_of_tokensFrom_eq_concat (h : tokensFrom q ls = ts ++ [o]) : ∃ front kind w gap,
    ls = front ++ ⟨.token kind, w⟩ :: gap ∧ tokensFrom q front = ts ∧ Silent gap ∧
      o = ⟨kind, w, (q.afterText (front.flatMap Lexeme.text)).span
        (q.afterText (front.flatMap Lexeme.text ++ w))⟩ := by
  induction ls using List.reverseRecOn with
  | nil => simp [tokensFrom, placeFrom] at h
  | append_singleton ls l ih =>
    rw [tokensFrom_append] at h
    obtain ⟨kind, w⟩ := l
    by_cases hkind : ∃ k, kind = .token k
    · obtain ⟨k, rfl⟩ := hkind
      obtain ⟨hts, ho⟩ := List.append_inj' h rfl
      refine ⟨ls, k, w, [], rfl, hts, by simp [Silent], ?_⟩
      rw [Position.afterText_append]
      exact (List.cons.inj ho).1.symm
    · have hsilent : Silent [⟨kind, w⟩] :=
        List.forall_mem_singleton.2 fun k hk => hkind ⟨k, hk⟩
      rw [hsilent.tokensFrom_eq_nil, List.append_nil] at h
      obtain ⟨front, k, v, gap, rfl, hfront, hgap, ho⟩ := ih h
      have hgap' : Silent (gap ++ [⟨kind, w⟩]) := fun l hl =>
        (List.mem_append.1 hl).elim (hgap l) (hsilent l)
      exact ⟨front, k, v, _, by simp, hfront, hgap', ho⟩

/-! ## The tokens of a name -/

/-- Words, and points with a word behind each of them. -/
def NameRow (ts : List Token) : Prop :=
  (∀ o ∈ ts, o.kind = .word ∨ (o.kind = .symbol ∧ o.text = ['.'])) ∧
    ts.IsChain fun o o' => o.kind = .symbol → o'.kind ≠ .symbol

theorem nameRow_nil : NameRow [] := ⟨by simp, List.isChain_nil⟩

theorem NameRow.cons_word (h : NameRow ts) (ho : o.kind = .word) : NameRow (o :: ts) :=
  ⟨List.forall_mem_cons.2 ⟨.inl ho, h.1⟩,
    List.isChain_cons.2 ⟨fun _ _ hkind => by simp [ho] at hkind, h.2⟩⟩

theorem NameRow.cons_point {n : Token} (h : NameRow (n :: ts)) (hn : n.kind = .word)
    (ho : (Terminal.symbol ["."]).accepts o = true) : NameRow (o :: n :: ts) := by
  obtain ⟨span, rfl⟩ := Terminal.eq_of_accepts_symbol ho
  exact ⟨List.forall_mem_cons.2 ⟨.inr ⟨rfl, rfl⟩, h.1⟩,
    List.isChain_cons_cons.2 ⟨fun _ => by simp [hn], h.2⟩⟩

theorem Attributes.nameRow_append (h : Attributes ts) (hus : NameRow us) : NameRow (ts ++ us) := by
  induction h with
  | nil => exact hus
  | cons ho hn _ ih => exact (ih.cons_word hn).cons_point hn ho

theorem IsDotted.nameRow_append (h : IsDotted ts) (hus : NameRow us) : NameRow (ts ++ us) := by
  obtain ⟨hn, hts⟩ := h
  exact (hts.nameRow_append hus).cons_word hn

/-- A dotted name ends in a word. -/
theorem IsDotted.exists_last (h : IsDotted ts) : ∃ us n, ts = us ++ [n] ∧ n.kind = .word := by
  have hlast : ∀ {ts : List Token}, Attributes ts → ∀ n : Token, n.kind = .word →
      ∃ us n', n :: ts = us ++ [n'] ∧ n'.kind = .word := by
    intro ts hts
    induction hts with
    | nil => exact fun n hn => ⟨[], n, rfl, hn⟩
    | @cons o n' ts _ hn' _ ih =>
      intro n _
      obtain ⟨us, n'', heq, hn''⟩ := ih n' hn'
      exact ⟨n :: o :: us, n'', by rw [heq]; rfl, hn''⟩
  obtain ⟨hn, hts⟩ := h
  exact hlast hts _ hn

namespace ImportName

variable {i : ImportName}

theorem IsRead.nameRow (h : i.IsRead) : NameRow i.tokens := by
  obtain ⟨path, newName⟩ := i
  cases newName with
  | none => exact h.path.nameRow_append nameRow_nil
  | some a =>
    obtain ⟨has, ho⟩ := h.newName a rfl
    have has' : a.1.kind = .word := by
      simp only [Terminal.accepts, Bool.and_eq_true, beq_iff_eq] at has
      exact has.1
    exact h.path.nameRow_append ((nameRow_nil.cons_word ho).cons_word has')

theorem IsRead.exists_last (h : i.IsRead) : ∃ us n, i.tokens = us ++ [n] ∧ n.kind = .word := by
  obtain ⟨path, newName⟩ := i
  cases newName with
  | none =>
    obtain ⟨us, n, hpath, hn⟩ := h.path.exists_last
    exact ⟨us, n, (List.append_nil _).trans hpath, hn⟩
  | some a => exact ⟨path ++ [a.1], a.2, by simp [tokens], (h.newName a rfl).2⟩

theorem span_node (i : ImportName) : i.node.span = spanOf i.tokens := by
  obtain ⟨path, newName⟩ := i
  cases newName with
  | none => exact congrArg spanOf (List.append_nil path).symm
  | some a => rfl

end ImportName

/-! ## The lexemes of a name -/

/-- Symbols whose tokens do not follow each other do not follow each other. -/
theorem isChain_of_tokensFrom
    (h : (tokensFrom q ls).IsChain fun o o' => o.kind = .symbol → o'.kind ≠ .symbol) :
    ls.IsChain fun l l' => l.kind = .token .symbol → l'.kind ≠ .token .symbol := by
  induction ls generalizing q with
  | nil => exact List.isChain_nil
  | cons l ls ih =>
    obtain ⟨kind, w⟩ := l
    by_cases hkind : ∃ k, kind = .token k
    · obtain ⟨k, rfl⟩ := hkind
      rw [tokensFrom_cons] at h
      refine List.isChain_cons.2 ⟨?_, ih h.tail⟩
      rintro ⟨kind', w'⟩ hl' hsymbol rfl
      obtain ⟨ms, rfl⟩ := List.head?_eq_some_iff.1 hl'
      obtain rfl := (LexemeKind.token.injEq ..).mp hsymbol
      rw [tokensFrom_cons] at h
      exact (List.isChain_cons_cons.1 h).1 rfl rfl
    · have hsilent : ∀ k, (⟨kind, w⟩ : Lexeme).kind ≠ .token k := fun k hk => hkind ⟨k, hk⟩
      rw [tokensFrom_silent hsilent] at h
      exact List.isChain_cons.2 ⟨fun _ _ hsymbol => absurd hsymbol (hsilent _), ih h⟩

theorem exists_mem_tokensFrom {kind : TokenKind} {w : Text} (h : ⟨.token kind, w⟩ ∈ ls) :
    ∃ o ∈ tokensFrom q ls, o.kind = kind ∧ o.text = w := by
  obtain ⟨front, rest, rfl⟩ := List.append_of_mem h
  rw [tokensFrom_append, tokensFrom_cons]
  exact ⟨_, List.mem_append_right _ (List.mem_cons_self ..), rfl, rfl⟩

/-- The lexemes of a script that a name has been read from are a run. -/
theorem ImportName.IsRead.isRun {i : ImportName} (h : i.IsRead) {source : Text} {A B : List Lexeme}
    (hscan : scan source = A ++ (ls ++ B)) (htokens : i.tokens = tokensFrom q ls)
    (hfirst : ∃ l ∈ ls.head?, ∃ kind, l.kind = .token kind)
    (hlast : ∃ l ∈ ls.getLast?, ∃ kind, l.kind = .token kind) : IsRun ls := by
  obtain ⟨hparts, hchain⟩ := h.nameRow
  rw [htokens] at hparts hchain
  refine isRun_of_scan hscan ?_ (isChain_of_tokensFrom hchain) ?_ ?_
  · rintro ⟨_, w⟩ hl k rfl
    obtain ⟨o, ho, rfl, rfl⟩ := exists_mem_tokensFrom (q := q) hl
    exact hparts o ho
  · obtain ⟨⟨_, w⟩, hl, kind, rfl⟩ := hfirst
    obtain ⟨rest, rfl⟩ := List.head?_eq_some_iff.1 hl
    obtain ⟨n, us, heq, hn⟩ := h.head
    rw [htokens, tokensFrom_cons] at heq
    obtain ⟨rfl, -⟩ := List.cons.inj heq
    exact ⟨_, rfl, congrArg LexemeKind.token hn⟩
  · obtain ⟨⟨_, w⟩, hl, kind, rfl⟩ := hlast
    obtain ⟨front, rfl⟩ := List.getLast?_eq_some_iff.1 hl
    obtain ⟨us, n, heq, hn⟩ := h.exists_last
    rw [htokens, tokensFrom_append] at heq
    obtain ⟨-, hlast⟩ := List.append_inj' heq rfl
    obtain ⟨rfl, -⟩ := List.cons.inj hlast
    exact ⟨_, List.getLast?_concat, congrArg LexemeKind.token hn⟩

/-- A run up to one of its words is a run. -/
theorem IsRun.front {w : Text} {ms : List Lexeme} (h : IsRun (ls ++ ⟨.token .word, w⟩ :: ms)) :
    IsRun (ls ++ [⟨.token .word, w⟩]) := by
  obtain ⟨hplain, hchain, ⟨l, hl, hkind⟩, -⟩ := h
  rw [← List.singleton_append, ← List.append_assoc] at hplain hchain
  refine ⟨(List.forall_mem_append.1 hplain).1, hchain.left_of_append, ⟨l, ?_, hkind⟩,
    ⟨_, List.getLast?_concat, rfl⟩⟩
  cases ls <;> exact hl

end

end Redeploy.Syntax

namespace Redeploy.Script

open Syntax

/-! ## Names with an alias -/

section

variable {path gap gap' : List Lexeme} {w : Text}

/-- The lexemes of a name with an alias. -/
def aliasLexemes (path gap gap' : List Lexeme) (w : Text) : List Lexeme :=
  path ++ (gap ++ ⟨.token .word, "as".toList⟩ :: (gap' ++ [⟨.token .word, w⟩]))

/-- The name that is read from them behind a text. -/
def aliasAt (before : Text) (path gap gap' : List Lexeme) (w : Text) : ImportName :=
  let front := before ++ path.flatMap Lexeme.text ++ gap.flatMap Lexeme.text
  let middle := front ++ "as".toList ++ gap'.flatMap Lexeme.text
  ⟨tokensFrom (pointAt before) path,
    some (⟨.word, "as".toList, (pointAt front).span (pointAt (front ++ "as".toList))⟩,
      ⟨.word, w, (pointAt middle).span (pointAt (middle ++ w))⟩)⟩

theorem tokens_aliasAt (hgap : Silent gap) (hgap' : Silent gap') (before : Text) :
    (aliasAt before path gap gap' w).tokens =
      tokensFrom (pointAt before) (aliasLexemes path gap gap' w) := by
  rw [aliasLexemes, tokensFrom_append, tokensFrom_append, hgap.tokensFrom_eq_nil, tokensFrom_cons,
    tokensFrom_append, hgap'.tokensFrom_eq_nil, tokensFrom_cons]
  simp only [afterText_pointAt]
  rfl

theorem pathAndAlias?_aliasAt (hpath : IsPath path) (before after : Text) :
    pathAndAlias? (before ++ (aliasLexemes path gap gap' w).flatMap Lexeme.text ++ after)
        (aliasAt before path gap gap' w).node =
      some (String.ofList (path.flatMap Lexeme.text), some (String.ofList w)) := by
  have hname : ((dottedNode (tokensFrom (pointAt before) path)).withRole .name).text
      (before ++ (aliasLexemes path gap gap' w).flatMap Lexeme.text ++ after) =
        String.ofList (path.flatMap Lexeme.text) := by
    have hsource : before ++ (aliasLexemes path gap gap' w).flatMap Lexeme.text ++ after =
        before ++ path.flatMap Lexeme.text ++ (gap.flatMap Lexeme.text ++ "as".toList ++
          gap'.flatMap Lexeme.text ++ w ++ after) := by
      simp [aliasLexemes]
    rw [hsource]
    exact text_of_span (hpath.span before)
  generalize hmiddle : before ++ path.flatMap Lexeme.text ++ gap.flatMap Lexeme.text ++ "as".toList ++
    gap'.flatMap Lexeme.text = middle
  have hnew : (Syntax.Tree.node .identifier (some .asName) ((pointAt middle).span (pointAt (middle ++ w)))
      []).text (before ++ (aliasLexemes path gap gap' w).flatMap Lexeme.text ++ after) =
        String.ofList w := by
    have hsource : before ++ (aliasLexemes path gap gap' w).flatMap Lexeme.text ++ after =
        middle ++ w ++ after := by
      simp [aliasLexemes, ← hmiddle]
    rw [hsource]
    exact text_of_span rfl
  rw [← hmiddle] at hnew
  exact congrArg some (congrArg₂ Prod.mk hname (congrArg some hnew))

theorem isSpelled_alias (hpath : IsPath path) (hgap : Silent gap) (hgap' : Silent gap')
    (hrun : IsRun (aliasLexemes path gap gap' w))
    (hline : ∀ l ∈ aliasLexemes path gap gap' w, l.kind ≠ .lineBreak) :
    NameText.IsSpelled ⟨aliasLexemes path gap gap' w, String.ofList (path.flatMap Lexeme.text),
      some (String.ofList w)⟩ where
  run := hrun
  line := hline
  reads before := by
    refine ⟨aliasAt before path gap gap' w, ⟨hpath.dotted _, ?_⟩, tokens_aliasAt hgap hgap' before,
      pathAndAlias?_aliasAt hpath before⟩
    rintro _ ⟨⟩
    exact ⟨rfl, rfl⟩

/-- The lexemes of a path that is read somewhere are a path. -/
theorem IsPath.of_isDotted {ls : List Lexeme} {q : Position} (hrun : IsRun ls)
    (hline : ∀ l ∈ ls, l.kind ≠ .lineBreak) (h : IsDotted (tokensFrom q ls)) : IsPath ls :=
  ⟨hrun, hline, fun r => h.congr (wording_tokensFrom q r ls)⟩

/-- A name with an alias is read from the lexemes of one. -/
theorem exists_aliasLexemes {before : Text} {ts : List Token} {as o : Token} {ls : List Lexeme}
    (hrun : IsRun ls) (hline : ∀ l ∈ ls, l.kind ≠ .lineBreak)
    (h : (⟨ts, some (as, o)⟩ : ImportName).IsRead) (htokens : tokensFrom (pointAt before) ls = ts ++ [as, o]) :
    ∃ path gap gap' w, ls = aliasLexemes path gap gap' w ∧ IsPath path ∧ Silent gap ∧ Silent gap' ∧
      (⟨ts, some (as, o)⟩ : ImportName) = aliasAt before path gap gap' w := by
  obtain ⟨has, ho⟩ := h.newName (as, o) rfl
  rw [show ts ++ [as, o] = ts ++ [as] ++ [o] by simp] at htokens
  -- the tokens are taken off the lexemes from the last one on
  obtain ⟨front, k, w, rest, rfl, hfront, hrest, rfl⟩ := exists_of_tokensFrom_eq_concat htokens
  obtain rfl : k = .word := ho
  obtain rfl : rest = [] := by
    obtain ⟨l, hl, hword⟩ := hrun.last
    by_contra hne
    refine hrest l ?_ _ hword
    rw [List.getLast?_append_of_ne_nil _ (List.cons_ne_nil _ _), List.getLast?_cons,
      List.getLast?_eq_some_getLast hne] at hl
    obtain rfl := Option.some.inj hl
    exact List.getLast_mem hne
  obtain ⟨middle, k', v, gap', rfl, hmiddle, hgap', rfl⟩ := exists_of_tokensFrom_eq_concat hfront
  obtain ⟨us, n, rfl, hn⟩ := h.path.exists_last
  obtain ⟨init, k'', x, gap, rfl, hinit, hgap, rfl⟩ := exists_of_tokensFrom_eq_concat hmiddle
  obtain rfl : k'' = .word := hn
  obtain ⟨rfl, rfl⟩ : k' = .word ∧ v = "as".toList := by simpa [Terminal.accepts] using has
  have hls : init ++ ⟨.token .word, x⟩ :: gap ++ ⟨.token .word, "as".toList⟩ :: gap' ++
      [⟨.token .word, w⟩] = aliasLexemes (init ++ [⟨.token .word, x⟩]) gap gap' w := by
    simp [aliasLexemes]
  have hpath : tokensFrom (pointAt before) (init ++ [⟨.token .word, x⟩]) = us ++
      [⟨.word, x, ((pointAt before).afterText (init.flatMap Lexeme.text)).span
        ((pointAt before).afterText (init.flatMap Lexeme.text ++ x))⟩] := by
    rw [tokensFrom_append, hinit, tokensFrom_cons, Position.afterText_append]
    rfl
  rw [← hpath] at h ⊢
  rw [hls] at hrun hline ⊢
  have hfrontRun : IsRun (init ++ [⟨.token .word, x⟩]) := by
    rw [aliasLexemes, List.append_assoc] at hrun
    exact hrun.front
  refine ⟨_, gap, gap', w, rfl,
    .of_isDotted hfrontRun (fun l hl => hline l (List.mem_append_left _ hl)) h.path, hgap, hgap', ?_⟩
  simp [aliasAt, afterText_pointAt]

/-! ## Names that are read -/

/-- A name of a script is spelled by the lexemes that it is read from, if none of them is a line break,
    and is the name that the script reads there. -/
theorem exists_isSpelled {i : ImportName} (h : i.IsRead) {before : Text} {ls : List Lexeme}
    (hrun : IsRun ls) (hline : ∀ l ∈ ls, l.kind ≠ .lineBreak)
    (htokens : i.tokens = tokensFrom (pointAt before) ls) :
    ∃ n : NameText, n.lexemes = ls ∧ n.IsSpelled ∧ ∀ after,
      pathAndAlias? (before ++ ls.flatMap Lexeme.text ++ after) i.node = some (n.path, n.newName) := by
  obtain ⟨ts, newName⟩ := i
  cases newName with
  | none =>
    obtain rfl : ts = tokensFrom (pointAt before) ls := (List.append_nil ts).symm.trans htokens
    have hpath : IsPath ls := .of_isDotted hrun hline h.path
    exact ⟨_, rfl, hpath.isSpelled, hpath.pathAndAlias? before⟩
  | some a =>
    obtain ⟨path, gap, gap', w, rfl, hpath, hgap, hgap', hname⟩ :=
      exists_aliasLexemes hrun hline h htokens.symm
    rw [hname]
    exact ⟨_, rfl, isSpelled_alias hpath hgap hgap' hrun hline, pathAndAlias?_aliasAt hpath before⟩

end

end Redeploy.Script
