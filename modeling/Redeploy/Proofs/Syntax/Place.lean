import Redeploy.Proofs.Text.Cut
import Redeploy.Syntax.Token

set_option autoImplicit false

/-! # Where tokens stand

The placed lexemes of a script cover it (`cover_placedLexemes`): each begins where the one before it
ends, and together they are the script. So every bound of a token is a cut of the script, and the
tokens, with the layout marks between them, stand in order (`inOrder_layout`). A token of the layout is
either a mark without extent or one of the lexemes (`isMark_or_stands_of_mem_layout`), and no lexeme
that is a token is lost (`mem_layout_of_mem`). -/

namespace Redeploy.Syntax

/-! ## Lexemes -/

theorem Position.after_byte (p : Position) (c : Char) : (p.after c).byte = p.byte + c.utf8Size := by
  unfold Position.after
  split <;> rfl

theorem Position.afterText_byte (p : Position) (t : Text) :
    (p.afterText t).byte = p.byte + t.size := by
  induction t generalizing p with
  | nil => rfl
  | cons c t ih =>
    rw [Position.afterText, List.foldl_cons] at *
    rw [Text.size_cons, ← Nat.add_assoc, ← Position.after_byte]
    exact ih (p.after c)

/-- Placed lexemes cover a text that begins at an offset: each begins where the one before it ends,
    and their texts in a row are the text. -/
def Cover : (offset : Nat) → List Placed → Text → Prop
  | _, [], t => t = []
  | n, p :: ps, t => p.span.startByte = n ∧ p.span.endByte = n + p.lexeme.text.size ∧
      ∃ rest, t = p.lexeme.text ++ rest ∧ Cover p.span.endByte ps rest

theorem cover_placeFrom (p : Position) (ls : List Lexeme) :
    Cover p.byte (placeFrom p ls) (ls.flatMap Lexeme.text) := by
  induction ls generalizing p with
  | nil => rfl
  | cons l ls ih =>
    have hend : (p.afterText l.text).byte = p.byte + l.text.size := p.afterText_byte l.text
    rw [placeFrom, List.flatMap_cons]
    exact ⟨rfl, hend, ls.flatMap Lexeme.text, rfl, ih (p.afterText l.text)⟩

theorem placeFrom_append (p : Position) (xs ys : List Lexeme) : placeFrom p (xs ++ ys) =
    placeFrom p xs ++ placeFrom (p.afterText (xs.flatMap Lexeme.text)) ys := by
  induction xs generalizing p with
  | nil => rfl
  | cons x xs ih =>
    have hafter : (p.afterText x.text).afterText (xs.flatMap Lexeme.text) =
        p.afterText (x.text ++ xs.flatMap Lexeme.text) := List.foldl_append.symm
    rw [List.cons_append, placeFrom, placeFrom, List.cons_append, ih, hafter, List.flatMap_cons]

theorem map_lexeme_placeFrom (p : Position) (ls : List Lexeme) :
    (placeFrom p ls).map Placed.lexeme = ls := by
  induction ls generalizing p with
  | nil => rfl
  | cons l ls ih => rw [placeFrom, List.map_cons, ih]

theorem length_placeFrom (q : Position) (ls : List Lexeme) : (placeFrom q ls).length = ls.length := by
  rw [← List.length_map (f := Placed.lexeme), map_lexeme_placeFrom]

/-- The text that placed lexemes are written as. -/
def written (ps : List Placed) : Text := ps.flatMap fun p => p.lexeme.text

theorem written_append (ps qs : List Placed) : written (ps ++ qs) = written ps ++ written qs :=
  List.flatMap_append

theorem written_cons (p : Placed) (ps : List Placed) :
    written (p :: ps) = p.lexeme.text ++ written ps :=
  List.flatMap_cons

/-- The lexemes of a script cover it. -/
theorem cover_placedLexemes (source : Text) : Cover 0 (placedLexemes source) source := by
  have h := cover_placeFrom .start (scan source)
  rwa [scan_text] at h

/-- A lexeme of a cover stands in the text at its span. -/
theorem Cover.exists_append {n : Nat} {ps : List Placed} {t : Text} (h : Cover n ps t) {p : Placed}
    (hp : p ∈ ps) : ∃ a b : Text, t = a ++ p.lexeme.text ++ b ∧ p.span.startByte = n + a.size ∧
      p.span.endByte = n + a.size + p.lexeme.text.size := by
  induction ps generalizing n t with
  | nil => simp at hp
  | cons q ps ih =>
    obtain ⟨hstart, hend, rest, rfl, hrest⟩ := h
    rcases List.mem_cons.1 hp with rfl | hp
    · exact ⟨[], rest, by simp, by simpa using hstart, by simpa using hend⟩
    · obtain ⟨a, b, rfl, ha, hb⟩ := ih hrest hp
      refine ⟨q.lexeme.text ++ a, b, by simp only [List.append_assoc], ?_, ?_⟩ <;>
      · rw [Text.size_append]
        omega

/-- The places of several lexemes of a cover, and what is in front of them and behind. -/
theorem Cover.append {n : Nat} {ps qs : List Placed} {t : Text} (h : Cover n (ps ++ qs) t) :
    ∃ rest, t = written ps ++ rest ∧ Cover (n + (written ps).size) qs rest := by
  induction ps generalizing n t with
  | nil => exact ⟨t, rfl, h⟩
  | cons p ps ih =>
    obtain ⟨-, hend, rest, rfl, hrest⟩ := h
    obtain ⟨rest, rfl, hqs⟩ := ih hrest
    have hsize : (written (p :: ps)).size = p.lexeme.text.size + (written ps).size := by
      rw [written_cons, Text.size_append]
    refine ⟨rest, by rw [written_cons, List.append_assoc], ?_⟩
    rwa [hsize, ← Nat.add_assoc, ← hend]

/-- The places of two lexemes of a cover, with what is in front of them, between them and behind. -/
theorem Cover.exists_between {A G B : List Placed} {p q : Placed} {t : Text}
    (h : Cover 0 (A ++ p :: (G ++ q :: B)) t) : ∃ rest,
      t = written A ++ (p.lexeme.text ++ (written G ++ q.lexeme.text)) ++ rest ∧
      p.span.startByte = (written A).size ∧
      p.span.endByte = (written A).size + p.lexeme.text.size ∧
      q.span.endByte =
        (written A).size + Text.size (p.lexeme.text ++ (written G ++ q.lexeme.text)) := by
  obtain ⟨rest, rfl, hstart, hend, rest', rfl, hcover⟩ := h.append
  obtain ⟨rest, rfl, -, hqend, rest', rfl, -⟩ := hcover.append
  refine ⟨rest', by simp only [List.append_assoc], by omega, by omega, ?_⟩
  rw [hqend, hend, Text.size_append, Text.size_append]
  omega

theorem Cover.eq_written {n : Nat} {ps : List Placed} {t : Text} (h : Cover n ps t) :
    t = written ps := by
  rw [← List.append_nil ps] at h
  obtain ⟨rest, rfl, rfl⟩ := h.append
  exact List.append_nil _

theorem Cover.isCut {ps : List Placed} {t : Text} (h : Cover 0 ps t) {p : Placed} (hp : p ∈ ps) :
    t.IsCut p.span.startByte ∧ t.IsCut p.span.endByte := by
  obtain ⟨a, b, rfl, ha, hb⟩ := h.exists_append hp
  rw [Nat.zero_add] at ha hb
  exact ⟨⟨a, p.lexeme.text ++ b, by rw [List.append_assoc], ha.symm⟩,
    ⟨a ++ p.lexeme.text, b, rfl, by rw [Text.size_append, hb]⟩⟩

theorem Cover.start_le {n : Nat} {ps : List Placed} {t : Text} (h : Cover n ps t) {p : Placed}
    (hp : p ∈ ps) : n ≤ p.span.startByte ∧ p.span.startByte ≤ p.span.endByte := by
  obtain ⟨a, b, -, ha, hb⟩ := h.exists_append hp
  omega

/-! ## Tokens in order -/

namespace Token

/-- Each token begins where the one before it ends, or later; the first one at an offset or
    later. -/
def InOrder : (offset : Nat) → List Token → Prop
  | _, [] => True
  | n, t :: ts => n ≤ t.span.startByte ∧ t.span.startByte ≤ t.span.endByte ∧ InOrder t.span.endByte ts

/-- Where the last one of several tokens ends; an offset, if there is none. -/
def endOf : (offset : Nat) → List Token → Nat
  | n, [] => n
  | _, t :: ts => endOf t.span.endByte ts

theorem endOf_append (n : Nat) (xs ys : List Token) :
    endOf n (xs ++ ys) = endOf (endOf n xs) ys := by
  induction xs generalizing n with
  | nil => rfl
  | cons x xs ih => exact ih x.span.endByte

theorem endOf_eq_getLast (n : Nat) (ts : List Token) (h : ts ≠ []) :
    endOf n ts = (ts.getLast h).span.endByte := by
  induction ts generalizing n with
  | nil => exact absurd rfl h
  | cons t ts ih =>
    cases ts with
    | nil => rfl
    | cons u us =>
      rw [endOf, ih t.span.endByte (by simp)]
      rfl

theorem inOrder_append (n : Nat) (xs ys : List Token) :
    InOrder n (xs ++ ys) ↔ InOrder n xs ∧ InOrder (endOf n xs) ys := by
  induction xs generalizing n with
  | nil => simp [InOrder, endOf]
  | cons x xs ih => simp [InOrder, endOf, ih, and_assoc]

theorem InOrder.le_endOf {n : Nat} {ts : List Token} (h : InOrder n ts) : n ≤ endOf n ts := by
  induction ts generalizing n with
  | nil => exact Nat.le_refl n
  | cons t ts ih =>
    obtain ⟨h1, h2, h3⟩ := h
    have := ih h3
    rw [endOf]
    omega

/-- A token in order lies between the bounds of all of them. -/
theorem InOrder.bounds {n : Nat} {ts : List Token} (h : InOrder n ts) {t : Token} (ht : t ∈ ts) :
    n ≤ t.span.startByte ∧ t.span.startByte ≤ t.span.endByte ∧ t.span.endByte ≤ endOf n ts := by
  induction ts generalizing n with
  | nil => simp at ht
  | cons u ts ih =>
    obtain ⟨h1, h2, h3⟩ := h
    rcases List.mem_cons.1 ht with rfl | ht
    · exact ⟨h1, h2, h3.le_endOf⟩
    · obtain ⟨h4, h5, h6⟩ := ih h3 ht
      exact ⟨by omega, h5, h6⟩

/-! ## Layout marks -/

/-- Whether a token is a layout mark: the end of a line, or the start or end of a block. -/
def isLayout (t : Token) : Bool :=
  t.kind == .newline || t.kind == .indent || t.kind == .dedent

/-- A layout mark behind some token: it is not written and has no extent. -/
def IsMark (t : Token) : Prop :=
  t.isLayout = true ∧ t.text = [] ∧ t.span.startByte = t.span.endByte

/-- A token that is written in the script: one of the placed lexemes. -/
def Stands (ps : List Placed) (t : Token) : Prop :=
  ∃ p ∈ ps, p.lexeme.kind = .token t.kind ∧ p.lexeme.text = t.text ∧ p.span = t.span

theorem Stands.mono {ps qs : List Placed} {t : Token} (h : Stands ps t)
    (hsub : ∀ p ∈ ps, p ∈ qs) : Stands qs t := by
  obtain ⟨p, hp, h⟩ := h
  exact ⟨p, hsub p hp, h⟩

end Token

theorem LineState.mem_lineEnd {prev m : Token} {blocks : List Nat} {indentation : Nat}
    (h : m ∈ (LineState.lineEnd prev blocks indentation).1) :
    ∃ k, (k = .newline ∨ k = .indent ∨ k = .dedent) ∧ m = prev.layoutAfter k := by
  unfold LineState.lineEnd at h
  split at h
  · simp at h
  · split at h
    · exact ⟨.indent, by simp, by simpa using h⟩
    · simp only [List.mem_cons, List.mem_replicate] at h
      rcases h with rfl | ⟨-, rfl⟩
      · exact ⟨.newline, by simp, rfl⟩
      · exact ⟨.dedent, by simp, rfl⟩

theorem LineState.isMark_of_mem_lineEnd {prev m : Token} {blocks : List Nat} {indentation : Nat}
    (h : m ∈ (LineState.lineEnd prev blocks indentation).1) :
    m.IsMark ∧ m.span.endByte = prev.span.endByte := by
  obtain ⟨k, hk, rfl⟩ := LineState.mem_lineEnd h
  refine ⟨⟨?_, rfl, rfl⟩, rfl⟩
  rcases hk with rfl | rfl | rfl <;> rfl

namespace LineState

/-- Where the token before ends; zero at the start of a script. -/
def prevEnd (s : LineState) : Nat :=
  match s.prev with
  | some prev => prev.span.endByte
  | none => 0

theorem mem_beforeToken {s : LineState} {m : Token} (h : m ∈ s.beforeToken.1) :
    ∃ prev, s.prev = some prev ∧ m.IsMark ∧ m.span.endByte = prev.span.endByte := by
  unfold beforeToken at h
  split at h
  · next prev n hprev _ => exact ⟨prev, hprev, isMark_of_mem_lineEnd h⟩
  · simp at h

theorem prev_afterSilent (s : LineState) (l : Lexeme) : (s.afterSilent l).prev = s.prev := by
  unfold afterSilent
  split
  · split <;> rfl
  · rfl
  · rfl

theorem prevEnd_afterSilent (s : LineState) (l : Lexeme) : (s.afterSilent l).prevEnd = s.prevEnd := by
  rw [prevEnd, prevEnd, prev_afterSilent]

end LineState

/-- Marks at one offset are in order, and end there. -/
theorem inOrder_marks {n : Nat} {ms : List Token}
    (h : ∀ m ∈ ms, m.IsMark ∧ m.span.endByte = n) :
    Token.InOrder n ms ∧ Token.endOf n ms = n := by
  induction ms with
  | nil => exact ⟨trivial, rfl⟩
  | cons m ms ih =>
    obtain ⟨⟨-, -, hspan⟩, hend⟩ := h m (List.mem_cons_self ..)
    have hrest := ih fun m' hm' => h m' (List.mem_cons_of_mem _ hm')
    unfold Token.InOrder Token.endOf
    rw [hend]
    exact ⟨⟨by omega, by omega, hrest.1⟩, hrest.2⟩

/-! ## The layout of a script -/

/-- The tokens of a cover stand in order. -/
theorem inOrder_layout (ps : List Placed) (s : LineState) (n : Nat) (t : Text) (h : Cover n ps t)
    (hs : s.prevEnd ≤ n) : Token.InOrder s.prevEnd (layout s ps) := by
  induction ps generalizing s n t with
  | nil =>
    cases hprev : s.prev with
    | none =>
      simp only [layout, hprev]
      trivial
    | some prev =>
      simp only [layout, LineState.prevEnd, hprev]
      exact (inOrder_marks fun m hm => LineState.isMark_of_mem_lineEnd hm).1
  | cons p ps ih =>
    obtain ⟨hstart, hend, rest, rfl, hrest⟩ := h
    unfold layout
    split
    · next kind hkind =>
      obtain ⟨hmarks, hmarksEnd⟩ := @inOrder_marks s.prevEnd s.beforeToken.1 (by
        intro m hm
        obtain ⟨prev, hprev, hmark⟩ := LineState.mem_beforeToken hm
        rwa [LineState.prevEnd, hprev])
      rw [Token.inOrder_append, hmarksEnd]
      refine ⟨hmarks, ?_, ?_, ih (s.beforeToken.2.afterToken ⟨kind, p.lexeme.text, p.span⟩)
        p.span.endByte rest hrest (Nat.le_refl _)⟩
      · show s.prevEnd ≤ p.span.startByte
        omega
      · show p.span.startByte ≤ p.span.endByte
        omega
    · rw [← s.prevEnd_afterSilent p.lexeme]
      exact ih _ p.span.endByte rest hrest (by rw [s.prevEnd_afterSilent]; omega)

/-- A token of the layout is a mark, or one of the lexemes. -/
theorem isMark_or_stands_of_mem_layout {ps : List Placed} {s : LineState} {t : Token}
    (h : t ∈ layout s ps) : t.IsMark ∨ t.Stands ps := by
  induction ps generalizing s with
  | nil =>
    unfold layout at h
    split at h
    · exact .inl (LineState.isMark_of_mem_lineEnd h).1
    · simp at h
  | cons p ps ih =>
    unfold layout at h
    split at h
    · next kind hkind =>
      simp only [List.mem_append, List.mem_cons] at h
      rcases h with h | rfl | h
      · obtain ⟨-, -, hmark, -⟩ := LineState.mem_beforeToken h
        exact .inl hmark
      · exact .inr ⟨p, List.mem_cons_self .., hkind, rfl, rfl⟩
      · exact (ih h).imp_right fun hstands => hstands.mono fun _ => List.mem_cons_of_mem _
    · exact (ih h).imp_right fun hstands => hstands.mono fun _ => List.mem_cons_of_mem _

/-- What holds of the bounds of all lexemes that are tokens holds of the bounds of all tokens. -/
theorem forall_bounds_layout {C : Nat → Prop} {ps : List Placed} {s : LineState}
    (hprev : ∀ prev, s.prev = some prev → C prev.span.endByte)
    (hps : ∀ p ∈ ps, ∀ kind, p.lexeme.kind = .token kind → C p.span.startByte ∧ C p.span.endByte) :
    ∀ t ∈ layout s ps, C t.span.startByte ∧ C t.span.endByte := by
  induction ps generalizing s with
  | nil =>
    intro t ht
    cases hp : s.prev with
    | none => simp [layout, hp] at ht
    | some prev =>
      simp only [layout, hp] at ht
      obtain ⟨⟨-, -, hspan⟩, hend⟩ := LineState.isMark_of_mem_lineEnd ht
      rw [hspan, hend]
      exact ⟨hprev prev hp, hprev prev hp⟩
  | cons p ps ih =>
    intro t ht
    have hp := hps p (List.mem_cons_self ..)
    have hrest := fun q hq => hps q (List.mem_cons_of_mem p hq)
    unfold layout at ht
    split at ht
    · next kind hkind =>
      simp only [List.mem_append, List.mem_cons] at ht
      rcases ht with ht | rfl | ht
      · obtain ⟨prev, hsome, ⟨-, -, hspan⟩, hend⟩ := LineState.mem_beforeToken ht
        rw [hspan, hend]
        exact ⟨hprev prev hsome, hprev prev hsome⟩
      · exact hp kind hkind
      · refine ih (s := s.beforeToken.2.afterToken ⟨kind, p.lexeme.text, p.span⟩) ?_ hrest t ht
        intro prev hsome
        obtain rfl := Option.some.inj hsome
        exact (hp kind hkind).2
    · exact ih (by rwa [s.prev_afterSilent]) hrest t ht

/-- A lexeme that is a token is a token of the layout. -/
theorem mem_layout_of_mem {ps : List Placed} {s : LineState} {p : Placed} {kind : TokenKind}
    (hp : p ∈ ps) (hkind : p.lexeme.kind = .token kind) :
    (⟨kind, p.lexeme.text, p.span⟩ : Token) ∈ layout s ps := by
  induction ps generalizing s with
  | nil => simp at hp
  | cons q ps ih =>
    unfold layout
    rcases List.mem_cons.1 hp with rfl | hp
    · rw [hkind]
      simp
    · split
      · simp only [List.mem_append, List.mem_cons]
        exact .inr (.inr (ih hp))
      · exact ih hp

end Redeploy.Syntax
