import Redeploy.Proofs.Syntax.Balance
import Redeploy.Proofs.Syntax.Code
import Redeploy.Proofs.Syntax.Edges

set_option autoImplicit false

/-! # The statements of a module

How the statements of a module follow each other (`Reads.rows`): a compound statement ends its line by
itself, simple statements share a line with semicolons between them, and a line ends in a layout
mark. -/

namespace Redeploy.Syntax

/-! ## Statements -/

/-- Whether a statement of a kind has a line of its own. -/
def isCompound : Kind → Bool
  | .ifStatement | .forStatement | .whileStatement | .tryStatement | .withStatement
  | .functionDefinition | .classDefinition | .decoratedDefinition | .matchStatement => true
  | _ => false

namespace Terminal

/-- Whether a test is passed by semicolons alone. -/
def isSemicolon : Terminal → Bool
  | .symbol ss => ss == [";"]
  | _ => false

/-- Whether a test is passed by layout marks alone. -/
def isMark : Terminal → Bool
  | .kind .newline | .kind .indent | .kind .dedent => true
  | _ => false

end Terminal

/-- Whether a test is passed by tokens that no simple statement ends in: layout marks, operators that
    lack an operand, and marks within a string. -/
def Terminal.isUnfinished : Terminal → Bool
  | .symbol ss => ss.any fun s => Token.operators.contains s
  | .kind k => isLayoutKind k || opensContent k || k == .symbol
  | _ => false

/-- A statement of a module over what has been read for it. -/
structure IsStatement (x : Tree) (u : Use) (us : List Use) : Prop where
  span : x.span = u.span us
  whole : Whole (u :: us)
  /-- No statement begins with a layout mark. -/
  begins : u.terminal.isMark = false
  /-- A compound statement ends in a layout mark. -/
  mark : isCompound x.kind = true → ∀ v ∈ (u :: us).getLast?, v.terminal.isMark = true
  /-- A simple one does not, and needs nothing more. -/
  finished : isCompound x.kind = false → ∀ v ∈ (u :: us).getLast?, v.terminal.isUnfinished = false

/-- The uses and the statements of a module from some point on; `behind` tells whether that point is
    behind a simple statement. -/
inductive Rows : (behind : Bool) → List Use → List Tree → Prop
  | done : Rows false [] []
  | statement {x : Tree} {u : Use} {us vs : List Use} {xs : List Tree} (hx : IsStatement x u us)
    (h : Rows (!isCompound x.kind) vs xs) : Rows false (u :: us ++ vs) (x :: xs)
  | semicolon {x : Tree} {s : Use} {us : List Use} {xs : List Tree}
    (hs : s.terminal.isSemicolon = true) (hx : isCompound x.kind = false)
    (h : Rows false us (x :: xs)) : Rows true (s :: us) (x :: xs)
  | lineEnd {m : Use} {us : List Use} {xs : List Tree} (hm : m.terminal.isMark = true)
    (h : Rows false us xs) : Rows true (m :: us) xs
  | lastLineEnd {s m : Use} {us : List Use} {xs : List Tree} (hs : s.terminal.isSemicolon = true)
    (hm : m.terminal.isMark = true) (h : Rows false us xs) : Rows true (s :: m :: us) xs

/-! ## Rules that build one node -/

section

variable {N : Type} {g : N → Rule N} {a b rule : Rule N} {us : List Use} {f f' : Frame}

theorem Reads.exists_of_seq (h : Reads g (.seq a b) us f f') :
    ∃ vs ws f'', us = vs ++ ws ∧ Reads g a vs f f'' ∧ Reads g b ws f'' f' := by
  cases h with
  | seq ha hb => exact ⟨_, _, _, rfl, ha, hb⟩

theorem Reads.or_of_alt (h : Reads g (.alt a b) us f f') : Reads g a us f f' ∨ Reads g b us f f' := by
  cases h with
  | altLeft ha => exact .inl ha
  | altRight hb => exact .inr hb

theorem Reads.of_ref {n : N} (h : Reads g (.ref n) us f f') : Reads g (g n) us f f' := by
  cases h with
  | ref h => exact h

theorem Reads.of_empty (h : Reads g .empty us f f') : us = [] ∧ f' = f := by
  cases h
  exact ⟨rfl, rfl⟩

theorem Reads.exists_of_token {t : Terminal} (h : Reads g (.token t) us f f') :
    f' = f ∧ ∃ token, us = [⟨t, token⟩] := by
  cases h with
  | @token _ token _ _ => exact ⟨rfl, token, rfl⟩

/-- Whether a rule reads nothing. -/
def Rule.isSilent : Rule N → Bool
  | .empty | .ahead _ | .notAhead _ => true
  | .seq a b | .alt a b => a.isSilent && b.isSilent
  | _ => false

theorem Reads.of_isSilent (h : Reads g rule us f f') : rule.isSilent = true → us = [] ∧ f' = f := by
  induction h with
  | empty | ahead | notAhead => exact fun _ => ⟨rfl, rfl⟩
  | seq _ _ iha ihb =>
    intro hsilent
    simp only [Rule.isSilent, Bool.and_eq_true] at hsilent
    obtain ⟨rfl, rfl⟩ := iha hsilent.1
    exact ihb hsilent.2
  | altLeft _ ih =>
    intro hsilent
    simp only [Rule.isSilent, Bool.and_eq_true] at hsilent
    exact ih hsilent.1
  | altRight _ ih =>
    intro hsilent
    simp only [Rule.isSilent, Bool.and_eq_true] at hsilent
    exact ih hsilent.2
  | _ => simp [Rule.isSilent]

/-- Whether a rule leaves the kind of the node that is being built as it is. -/
def Rule.keepsKind : Rule N → Bool
  | .become _ => false
  | .seq a b | .alt a b => a.keepsKind && b.keepsKind
  | .many a | .role _ a | .only _ a => a.keepsKind
  | _ => true

theorem Reads.kind_eq (hg : ∀ n, (g n).keepsKind = true) (h : Reads g rule us f f') :
    rule.keepsKind = true → f'.kind = f.kind := by
  induction h with
  | empty | token | manyNil | ahead | notAhead | node | wrap => exact fun _ => rfl
  | become => simp [Rule.keepsKind]
  | seq _ _ iha ihb =>
    intro hkeeps
    simp only [Rule.keepsKind, Bool.and_eq_true] at hkeeps
    rw [ihb hkeeps.2, iha hkeeps.1]
  | manyCons _ _ _ iha ihb =>
    intro hkeeps
    rw [ihb hkeeps, iha hkeeps]
  | altLeft _ ih =>
    intro hkeeps
    simp only [Rule.keepsKind, Bool.and_eq_true] at hkeeps
    exact ih hkeeps.1
  | altRight _ ih =>
    intro hkeeps
    simp only [Rule.keepsKind, Bool.and_eq_true] at hkeeps
    exact ih hkeeps.2
  | ref _ ih => exact fun _ => ih (hg _)
  | role _ ih | only _ _ ih => exact ih

/-- Whether a rule builds one node, of certain kinds, over all that it reads. -/
def Rule.buildsOne (p : Kind → Bool) : Rule N → Bool
  | .node k a => p k && a.keepsKind
  | .alt a b => a.buildsOne p && b.buildsOne p
  | .seq a b => a.buildsOne p && b.isSilent
  | _ => false

theorem Reads.of_buildsOne {p : Kind → Bool} (hg : ∀ n, (g n).keepsKind = true)
    (h : Reads g rule us f f') : rule.buildsOne p = true →
      ∃ x u vs, us = u :: vs ∧ f'.built = x :: f.built ∧ p x.kind = true ∧ x.span = u.span vs := by
  induction h with
  | @node k a u us f f' ha _ =>
    intro hone
    simp only [Rule.buildsOne, Bool.and_eq_true] at hone
    refine ⟨_, u, us, rfl, rfl, ?_, rfl⟩
    show p f'.kind = true
    rw [ha.kind_eq hg hone.2]
    exact hone.1
  | altLeft _ ih =>
    intro hone
    simp only [Rule.buildsOne, Bool.and_eq_true] at hone
    exact ih hone.1
  | altRight _ ih =>
    intro hone
    simp only [Rule.buildsOne, Bool.and_eq_true] at hone
    exact ih hone.2
  | seq _ hb iha _ =>
    intro hone
    simp only [Rule.buildsOne, Bool.and_eq_true] at hone
    obtain ⟨rfl, rfl⟩ := hb.of_isSilent hone.2
    rw [List.append_nil]
    exact iha hone.1
  | _ => simp [Rule.buildsOne]

end

/-! ## Rows -/

theorem keepsKind_rule (n : Phrase) : (Grammar.rule n).keepsKind = true := by
  cases n <;> rfl

variable {us : List Use} {f f' : Frame}

/-! ### Simple statements -/

/-- How phrases begin with a layout mark. -/
def layoutEdge : Phrase → Edge
  | .suite => ⟨false, true, false⟩
  | _ => .unmarked

/-- How phrases end with a token that no simple statement ends in. -/
def unfinishedEdge : Phrase → Edge
  | .statement | .simpleStatements | .suite | .elseClause | .parameter | .interpolation =>
    ⟨false, false, true⟩
  | _ => .unmarked

/-- A simple statement. -/
theorem Reads.exists_of_simpleStatement (h : Reads Grammar.rule Grammar.simpleStatement us f f') :
    ∃ x u vs, us = u :: vs ∧ f'.built = x :: f.built ∧ isCompound x.kind = false ∧
      IsStatement x u vs := by
  have hwhole := h.whole rfl
  have hends := h.ends_eq_false Terminal.isUnfinished unfinishedEdge
    (fun n => by cases n <;> rfl) rfl
  have hstarts := h.starts_eq_false Terminal.isMark layoutEdge (fun n => by cases n <;> rfl) rfl
  obtain ⟨x, u, vs, rfl, hbuilt, hkind, hspan⟩ :=
    h.of_buildsOne (p := fun k => !isCompound k) keepsKind_rule rfl
  rw [Bool.not_eq_true'] at hkind
  exact ⟨x, u, vs, rfl, hbuilt, hkind, hspan, hwhole, hstarts u rfl, by simp [hkind],
    fun _ => hends⟩

/-- Simple statements on the line of another one. -/
theorem Reads.rows_more (h : Reads Grammar.rule
    (.many (.seq (Grammar.symbol ";") Grammar.simpleStatement)) us f f') {vs : List Use}
    {xs : List Tree} (hrows : Rows true vs xs) :
    ∃ ys, f'.built = ys.reverse ++ f.built ∧ Rows true (us ++ vs) (ys ++ xs) := by
  generalize hrule : Rule.many _ = rule at h
  induction h with
  | manyNil => exact ⟨[], rfl, hrows⟩
  | manyCons _ ha _ _ ih =>
    cases hrule
    obtain ⟨ys, hbuilt, hys⟩ := ih rfl
    obtain ⟨_, _, f'', rfl, hs, hsimple⟩ := ha.exists_of_seq
    obtain ⟨rfl, s, rfl⟩ := hs.exists_of_token
    obtain ⟨x, u, ws, rfl, hx, hkind, hstatement⟩ := hsimple.exists_of_simpleStatement
    refine ⟨x :: ys, by rw [hbuilt, hx]; simp, ?_⟩
    rw [List.append_assoc, List.append_assoc]
    exact .semicolon rfl hkind (.statement hstatement (by rwa [hkind]))
  | _ => cases hrule

/-- The end of a line of simple statements, with a last semicolon or without one. -/
theorem Reads.rows_lineEnd (h : Reads Grammar.rule
    (.seq (Grammar.optional (Grammar.symbol ";")) Grammar.newline) us f f') {vs : List Use}
    {xs : List Tree} (hrows : Rows false vs xs) : f' = f ∧ Rows true (us ++ vs) xs := by
  obtain ⟨_, _, _, rfl, hlast, hend⟩ := h.exists_of_seq
  obtain ⟨rfl, m, rfl⟩ := hend.exists_of_token
  rcases hlast.or_of_alt with hsemicolon | hnone
  · obtain ⟨rfl, s, rfl⟩ := hsemicolon.exists_of_token
    exact ⟨rfl, .lastLineEnd rfl rfl hrows⟩
  · obtain ⟨rfl, rfl⟩ := hnone.of_empty
    exact ⟨rfl, .lineEnd rfl hrows⟩

/-- A line of simple statements. -/
theorem Reads.rows_simpleStatements (h : Reads Grammar.rule Grammar.simpleStatements us f f')
    {vs : List Use} {xs : List Tree} (hrows : Rows false vs xs) :
    ∃ ys, f'.built = ys.reverse ++ f.built ∧ Rows false (us ++ vs) (ys ++ xs) := by
  obtain ⟨_, _, f₁, rfl, hsimple, h⟩ := Reads.exists_of_seq h
  obtain ⟨_, _, f₂, rfl, hmore, hend⟩ := Reads.exists_of_seq h
  obtain ⟨rfl, htail⟩ := Reads.rows_lineEnd hend hrows
  obtain ⟨ys, hys, hmore⟩ := Reads.rows_more hmore htail
  obtain ⟨x, u, ws, rfl, hx, hkind, hstatement⟩ := hsimple.exists_of_simpleStatement
  refine ⟨x :: ys, by rw [hys, hx]; simp, ?_⟩
  rw [List.append_assoc, List.append_assoc]
  exact .statement hstatement (by rwa [hkind])

/-! ### Compound statements -/

/-- How phrases end with anything but a layout mark. -/
def markEdge : Phrase → Edge
  | .statement | .simpleStatements | .suite | .elseClause => .unmarked
  | _ => ⟨false, false, true⟩

/-- The compound statements. -/
def compoundStatements : List (Rule Phrase) :=
  [Grammar.ifStatement, Grammar.forStatement, Grammar.whileStatement, Grammar.tryStatement,
    Grammar.withStatement, Grammar.functionDefinition, Grammar.classDefinition,
    Grammar.decoratedDefinition, Grammar.matchStatement]

/-- A compound statement ends in a layout mark. -/
theorem Reads.exists_of_compound {r : Rule Phrase} (hr : r ∈ compoundStatements)
    (h : Reads Grammar.rule r us f f') :
    ∃ x u vs, us = u :: vs ∧ f'.built = x :: f.built ∧ isCompound x.kind = true ∧
      IsStatement x u vs := by
  have hone : ∀ r ∈ compoundStatements, r.buildsOne isCompound = true := by decide
  have hedge : ∀ r ∈ compoundStatements,
      (r.edge (fun t => !t.isMark) (fun _ => false) markEdge).ends = false := by decide
  have hbalance : ∀ r ∈ compoundStatements, r.balance = some .keeps := by decide
  have hwhole := h.whole (hbalance r hr)
  have hends := h.ends_eq_false (fun t => !t.isMark) markEdge (fun n => by cases n <;> rfl)
    (hedge r hr)
  have hstart : ∀ r ∈ compoundStatements,
      (r.edge (fun _ => false) Terminal.isMark layoutEdge).starts = false := by decide
  have hstarts := h.starts_eq_false Terminal.isMark layoutEdge (fun n => by cases n <;> rfl)
    (hstart r hr)
  obtain ⟨x, u, vs, rfl, hx, hkind, hspan⟩ := h.of_buildsOne keepsKind_rule (hone r hr)
  exact ⟨x, u, vs, rfl, hx, hkind, hspan, hwhole, hstarts u rfl,
    fun _ v hv => by simpa using hends v hv, by simp [hkind]⟩

/-- The rule of a statement is that of a compound statement or that of simple statements. -/
theorem Reads.or_of_statement (h : Reads Grammar.rule (.ref .statement) us f f') :
    (∃ r ∈ compoundStatements, Reads Grammar.rule r us f f') ∨
      Reads Grammar.rule Grammar.simpleStatements us f f' := by
  have halts : ∀ rs : List (Rule Phrase), Reads Grammar.rule
      (Grammar.alts (rs ++ [.ref .simpleStatements])) us f f' →
      (∃ r ∈ rs, Reads Grammar.rule r us f f') ∨
        Reads Grammar.rule Grammar.simpleStatements us f f' := by
    intro rs h
    induction rs with
    | nil => exact .inr (Reads.of_ref h)
    | cons r rs ih =>
      have hcons : Grammar.alts (r :: rs ++ [.ref .simpleStatements]) =
          .alt r (Grammar.alts (rs ++ [.ref .simpleStatements])) := by
        cases rs <;> rfl
      rw [hcons] at h
      rcases h.or_of_alt with h | h
      · exact .inl ⟨r, List.mem_cons_self .., h⟩
      · exact (ih h).imp_left fun ⟨r', hr', h'⟩ => ⟨r', List.mem_cons_of_mem r hr', h'⟩
  exact halts compoundStatements h.of_ref

/-- The statements of a module. -/
theorem Reads.rows (h : Reads Grammar.rule (.many (.ref .statement)) us f f') :
    ∃ xs, f'.built = xs.reverse ++ f.built ∧ Rows false us xs := by
  generalize hrule : Rule.many _ = rule at h
  induction h with
  | manyNil => exact ⟨[], rfl, .done⟩
  | manyCons _ ha _ _ ih =>
    cases hrule
    obtain ⟨xs, hbuilt, hrows⟩ := ih rfl
    rcases ha.or_of_statement with ⟨r, hr, hcompound⟩ | hsimple
    · obtain ⟨x, u, vs, rfl, hx, hkind, hstatement⟩ := hcompound.exists_of_compound hr
      exact ⟨x :: xs, by rw [hbuilt, hx]; simp, .statement hstatement (by rwa [hkind])⟩
    · obtain ⟨ys, hys, hrows'⟩ := hsimple.rows_simpleStatements hrows
      exact ⟨ys ++ xs, by rw [hbuilt, hys]; simp, hrows'⟩
  | _ => cases hrule

/-! ## One statement and the next -/

/-- The uses between two statements: a semicolon at most, and then the end of a line at most. Behind a
    compound statement there are none, and without the end of a line a simple statement follows. -/
inductive Between : (behind : Bool) → List Use → List Tree → Prop
  | nothing {xs : List Tree} : Between false [] xs
  | semicolon {s : Use} {x : Tree} {xs : List Tree} (hs : s.terminal.isSemicolon = true)
    (hx : isCompound x.kind = false) : Between true [s] (x :: xs)
  | lineEnd {m : Use} {xs : List Tree} (hm : m.terminal.isMark = true) : Between true [m] xs
  | lastLineEnd {s m : Use} {xs : List Tree} (hs : s.terminal.isSemicolon = true)
    (hm : m.terminal.isMark = true) : Between true [s, m] xs

theorem Between.separator {behind : Bool} {us : List Use} {xs : List Tree}
    (h : Between behind us xs) : ∀ v ∈ us, v.terminal.isSemicolon = true ∨ v.terminal.isMark = true := by
  cases h with
  | nothing => simp
  | semicolon hs _ => simp [hs]
  | lineEnd hm => simp [hm]
  | lastLineEnd hs hm => simp [hs, hm]

theorem Terminal.isSemicolon_of_isMark {t : Terminal} (h : t.isMark = true) :
    t.isSemicolon = false := by
  cases t with
  | symbol ss => simp [isMark] at h
  | _ => rfl

/-- A semicolon between two statements comes right behind the first one, which is simple. -/
theorem Between.eq_cons {behind : Bool} {us : List Use} {xs : List Tree} (h : Between behind us xs)
    {s : Use} (hmem : s ∈ us) (hs : s.terminal.isSemicolon = true) :
    behind = true ∧ ∃ rest, us = s :: rest := by
  have hnot : ∀ m : Use, m.terminal.isMark = true → s ≠ m := by
    rintro m hm rfl
    rw [Terminal.isSemicolon_of_isMark hm] at hs
    simp at hs
  cases h with
  | nothing => simp at hmem
  | semicolon _ _ =>
    obtain rfl := List.mem_singleton.1 hmem
    exact ⟨rfl, [], rfl⟩
  | lineEnd hm => exact absurd (List.mem_singleton.1 hmem) (hnot _ hm)
  | lastLineEnd _ hm =>
    rcases List.mem_cons.1 hmem with rfl | hmem
    · exact ⟨rfl, _, rfl⟩
    · exact absurd (List.mem_singleton.1 hmem) (hnot _ hm)

/-- Some uses begin with those of the first one of several statements. -/
def BeginsWith (us : List Use) (xs : List Tree) : Prop :=
  (xs = [] ∧ us = []) ∨
    ∃ x rest u vs ws, xs = x :: rest ∧ us = u :: vs ++ ws ∧ IsStatement x u vs

theorem Rows.beginsWith {us : List Use} {xs : List Tree} (h : Rows false us xs) :
    BeginsWith us xs := by
  cases h with
  | done => exact .inl ⟨rfl, rfl⟩
  | statement hx _ => exact .inr ⟨_, _, _, _, _, rfl, rfl, hx⟩

/-- From a point between two statements on. -/
theorem Rows.exists_between {behind : Bool} {us : List Use} {xs : List Tree} (h : Rows behind us xs) :
    ∃ vs ws, us = vs ++ ws ∧ Between behind vs xs ∧ BeginsWith ws xs := by
  cases h with
  | done => exact ⟨[], [], rfl, .nothing, Rows.done.beginsWith⟩
  | statement hx h => exact ⟨[], _, rfl, .nothing, (Rows.statement hx h).beginsWith⟩
  | @semicolon _ s us _ hs hx h => exact ⟨[s], us, rfl, .semicolon hs hx, h.beginsWith⟩
  | @lineEnd m us _ hm h => exact ⟨[m], us, rfl, .lineEnd hm, h.beginsWith⟩
  | @lastLineEnd s m us _ hs hm h => exact ⟨[s, m], us, rfl, .lastLineEnd hs hm, h.beginsWith⟩

theorem whole_of_separator {u : Use} (h : u.terminal.accepts u.token = true)
    (hu : u.terminal.isSemicolon = true ∨ u.terminal.isMark = true) : Whole [u] := by
  obtain ⟨t, token⟩ := u
  refine Terminal.holds_balance (b := .keeps) (t := t) ?_ h
  rcases hu with hsemicolon | hmark
  · unfold Terminal.isSemicolon at hsemicolon
    split at hsemicolon
    · next ss heq =>
      have ht : t = .symbol ss := heq
      rw [beq_iff_eq] at hsemicolon
      subst ht hsemicolon
      rfl
    · simp at hsemicolon
  · unfold Terminal.isMark at hmark
    split at hmark
    · next heq => rw [show t = _ from heq]; rfl
    · next heq => rw [show t = _ from heq]; rfl
    · next heq => rw [show t = _ from heq]; rfl
    · simp at hmark

/-- What is read for a statement, with what is read in front of it and behind it. -/
def ReadAt (us : List Use) (x : Tree) (post : List Tree) : Prop :=
  ∃ vs u ws ws', us = vs ++ (u :: ws ++ ws') ∧ Whole vs ∧ IsStatement x u ws ∧
    Rows (!isCompound x.kind) ws' post

theorem ReadAt.append {vs us : List Use} {x : Tree} {post : List Tree} (hvs : Whole vs)
    (h : ReadAt us x post) : ReadAt (vs ++ us) x post := by
  obtain ⟨vs', u, ws, ws', rfl, hvs', hx, hrows⟩ := h
  exact ⟨vs ++ vs', u, ws, ws', by rw [List.append_assoc], hvs.append hvs', hx, hrows⟩

theorem Rows.readAt {behind : Bool} {us : List Use} {pre post : List Tree} {x : Tree}
    (h : Rows behind us (pre ++ x :: post)) (hacc : ∀ u ∈ us, u.terminal.accepts u.token = true) :
    ReadAt us x post := by
  generalize hxs : pre ++ x :: post = xs at h
  induction h generalizing pre with
  | done => simp at hxs
  | @statement y u ws vs xs hy h ih =>
    cases pre with
    | nil =>
      obtain ⟨rfl, rfl⟩ := List.cons.inj hxs
      exact ⟨[], u, ws, vs, rfl, fun _ => rfl, hy, h⟩
    | cons z pre =>
      exact (ih (fun v hv => hacc v (by simp [hv])) (List.cons.inj hxs).2).append hy.whole
  | @semicolon y s us xs hs _ h ih =>
    have hs := whole_of_separator (hacc s (by simp)) (.inl hs)
    exact (ih (fun v hv => hacc v (by simp [hv])) hxs).append hs
  | @lineEnd m us xs hm h ih =>
    have hm := whole_of_separator (hacc m (by simp)) (.inr hm)
    exact (ih (fun v hv => hacc v (by simp [hv])) hxs).append hm
  | @lastLineEnd s m us xs hs hm h ih =>
    have hs := whole_of_separator (hacc s (by simp)) (.inl hs)
    have hm := whole_of_separator (hacc m (by simp)) (.inr hm)
    exact (ih (fun v hv => hacc v (by simp [hv])) hxs).append (hs.append hm)

end Redeploy.Syntax
