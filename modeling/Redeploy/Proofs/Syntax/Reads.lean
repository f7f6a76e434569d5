import Redeploy.Proofs.Syntax.Place
import Redeploy.Syntax.Rule

set_option autoImplicit false

/-! # What rules read

`Reads` says which tokens a rule reads and which nodes it builds from them, without the order in which
alternatives are tried, without looking ahead and without a bound on depth. Whatever `Rule.read`
reads is read in this sense (`reads_of_read`), so what every rule does to tokens and nodes is proved
by induction on `Reads`, one case a rule. -/

namespace Redeploy.Syntax

/-- One token read, and the test that it passed. -/
structure Use where
  /-- The test. -/
  terminal : Terminal
  /-- The token. -/
  token : Token

namespace Use

/-- The tokens that have been read. -/
def tokens (us : List Use) : List Token :=
  us.map Use.token

/-- The span from the first of several tokens to the last. -/
def span (first : Use) (rest : List Use) : Span :=
  first.token.span.upTo (rest.getLastD first).token.span

theorem endOf_tokens (n : Nat) (first : Use) (rest : List Use) :
    Token.endOf n (tokens (first :: rest)) = (rest.getLastD first).token.span.endByte := by
  induction rest generalizing n first with
  | nil => rfl
  | cons u rest ih =>
    rw [List.getLastD_cons]
    exact ih first.token.span.endByte u

theorem tokens_append (us vs : List Use) : tokens (us ++ vs) = tokens us ++ tokens vs :=
  List.map_append

end Use

/-- The node that is being built: its kind, and the nodes under it, the last one first. -/
structure Frame where
  /-- The kind of the node. -/
  kind : Kind
  /-- The nodes under it. -/
  built : List Tree

/-- What a rule reads, and what it does to the node that is being built. -/
inductive Reads {N : Type} (g : N → Rule N) : Rule N → List Use → Frame → Frame → Prop
  | empty (f : Frame) : Reads g .empty [] f f
  | token {t : Terminal} {token : Token} (f : Frame) (h : t.accepts token = true) :
    Reads g (.token t) [⟨t, token⟩] f f
  | seq {a b : Rule N} {us vs : List Use} {f f' f'' : Frame} (ha : Reads g a us f f')
    (hb : Reads g b vs f' f'') : Reads g (.seq a b) (us ++ vs) f f''
  | altLeft {a b : Rule N} {us : List Use} {f f' : Frame} (ha : Reads g a us f f') :
    Reads g (.alt a b) us f f'
  | altRight {a b : Rule N} {us : List Use} {f f' : Frame} (hb : Reads g b us f f') :
    Reads g (.alt a b) us f f'
  | manyNil {a : Rule N} (f : Frame) : Reads g (.many a) [] f f
  | manyCons {a : Rule N} {us vs : List Use} {f f' f'' : Frame} (hne : us ≠ [])
    (ha : Reads g a us f f') (hmany : Reads g (.many a) vs f' f'') :
    Reads g (.many a) (us ++ vs) f f''
  | ref {n : N} {us : List Use} {f f' : Frame} (h : Reads g (g n) us f f') :
    Reads g (.ref n) us f f'
  | node {k : Kind} {a : Rule N} {u : Use} {us : List Use} {f f' : Frame}
    (ha : Reads g a (u :: us) ⟨k, []⟩ f') :
    Reads g (.node k a) (u :: us) f
      ⟨f.kind, .node f'.kind none (u.span us) f'.built.reverse :: f.built⟩
  | wrap {k : Kind} {r : Option Role} {a : Rule N} {u : Use} {us : List Use} {kind : Kind}
    {head : Tree} {before : List Tree} {f' : Frame}
    (ha : Reads g a (u :: us) ⟨k, [(r.map head.withRole).getD head]⟩ f') :
    Reads g (.wrap k r a) (u :: us) ⟨kind, head :: before⟩
      ⟨kind, .node f'.kind none (head.span.upTo (u.span us)) f'.built.reverse :: before⟩
  | become {k : Kind} (f : Frame) : Reads g (.become k) [] f ⟨k, f.built⟩
  | role {r : Role} {a : Rule N} {us : List Use} {f f' : Frame} (ha : Reads g a us ⟨f.kind, []⟩ f') :
    Reads g (.role r a) us f ⟨f'.kind, f'.built.map (Tree.withRole r) ++ f.built⟩
  | only {ks : List Kind} {a : Rule N} {us : List Use} {f f' : Frame}
    (ha : Reads g a us ⟨f.kind, []⟩ f') (hks : ∀ t ∈ f'.built, t.kind ∈ ks) :
    Reads g (.only ks a) us f ⟨f'.kind, f'.built ++ f.built⟩
  | ahead {t : Terminal} (f : Frame) : Reads g (.ahead t) [] f f
  | notAhead {t : Terminal} (f : Frame) : Reads g (.notAhead t) [] f f

/-! ## Reading by rules is reading -/

namespace Reading

/-- The node that is being built. -/
def frame (s : Reading) : Frame := ⟨s.kind, s.built⟩

/-- Between two points of a reading, some tokens are read. -/
structure Consumes (s s' : Reading) (us : List Use) : Prop where
  rest : s.rest = Use.tokens us ++ s'.rest
  count : s'.count = s.count + us.length
  prev : s'.prev = (us.map Use.token).getLastD s.prev

namespace Consumes

theorem nothing {s s' : Reading} (hrest : s'.rest = s.rest) (hcount : s'.count = s.count)
    (hprev : s'.prev = s.prev) : s.Consumes s' [] :=
  ⟨hrest.symm, hcount, hprev⟩

theorem trans {s s' s'' : Reading} {us vs : List Use} (h : s.Consumes s' us)
    (h' : s'.Consumes s'' vs) : s.Consumes s'' (us ++ vs) := by
  refine ⟨?_, ?_, ?_⟩
  · rw [h.rest, h'.rest, Use.tokens_append, List.append_assoc]
  · rw [h'.count, h.count, List.length_append, Nat.add_assoc]
  · rw [h'.prev, h.prev, List.map_append]
    simp only [List.getLastD_eq_getLast?, List.getLast?_append]
    cases (vs.map Use.token).getLast? <;> rfl

/-- Progress means that at least one token is read. -/
theorem exists_cons {s s' : Reading} {us : List Use} (h : s.Consumes s' us)
    (hlt : s.count < s'.count) : ∃ u rest, us = u :: rest := by
  cases us with
  | nil =>
    have := h.count
    rw [List.length_nil] at this
    omega
  | cons u rest => exact ⟨u, rest, rfl⟩

/-- The token read last is the last one of those that are read. -/
theorem prev_eq {s s' : Reading} {u : Use} {us : List Use} (h : s.Consumes s' (u :: us)) :
    s'.prev = (us.getLastD u).token := by
  rw [h.prev, List.map_cons, List.getLastD_cons]
  simp only [List.getLastD_eq_getLast?, List.getLast?_map]
  cases us.getLast? <;> rfl

end Consumes

theorem readToken_eq_ok {s s' : Reading} {t : Terminal} (h : s.readToken t = .ok s') :
    ∃ token, t.accepts token = true ∧ s.rest = token :: s'.rest ∧ s'.count = s.count + 1 ∧
      s'.prev = token ∧ s'.frame = s.frame := by
  unfold readToken at h
  split at h
  · next token rest hrest =>
    split at h
    · next hacc =>
      rw [Except.ok.injEq] at h
      subst h
      exact ⟨token, hacc, hrest, rfl, rfl, rfl⟩
    · simp [stuck] at h
  · simp [stuck] at h

theorem look_eq_ok {s s' : Reading} {t : Terminal} {expected : Bool}
    (h : s.look t expected = .ok s') : s' = s := by
  unfold look at h
  split at h <;> split at h <;> simp_all [stuck]

end Reading

variable {N : Type} {g : N → Rule N}

/-- Whatever a rule reads, and whatever it builds from that, `Reads` says of it. -/
theorem reads_of_read {depth : Nat} {rule : Rule N} {s s' : Reading}
    (h : Rule.read g depth rule s = .ok s') :
    ∃ us, Reads g rule us s.frame s'.frame ∧ s.Consumes s' us := by
  induction depth generalizing rule s s' with
  | zero => simp [Rule.read, Reading.stuck] at h
  | succ depth ih =>
    cases rule with
    | empty =>
      rw [Rule.read, Except.ok.injEq] at h
      subst h
      exact ⟨[], .empty _, .nothing rfl rfl rfl⟩
    | token t =>
      obtain ⟨token, hacc, hrest, hcount, hprev, hframe⟩ := Reading.readToken_eq_ok h
      rw [hframe]
      exact ⟨[⟨t, token⟩], .token _ hacc, hrest, hcount, hprev⟩
    | seq a b =>
      simp only [Rule.read] at h
      split at h
      · next s1 ha =>
        obtain ⟨us, hus, hcons⟩ := ih ha
        obtain ⟨vs, hvs, hcons'⟩ := ih h
        exact ⟨us ++ vs, .seq hus hvs, hcons.trans hcons'⟩
      · simp at h
    | alt a b =>
      simp only [Rule.read] at h
      split at h
      · next s1 ha =>
        rw [Except.ok.injEq] at h
        subst h
        obtain ⟨us, hus, hcons⟩ := ih ha
        exact ⟨us, .altLeft hus, hcons⟩
      · obtain ⟨us, hus, hcons⟩ := ih h
        exact ⟨us, .altRight hus, hcons.rest, hcons.count, hcons.prev⟩
    | many a =>
      simp only [Rule.read] at h
      split at h
      · next s1 ha =>
        split at h
        · next hlt =>
          obtain ⟨us, hus, hcons⟩ := ih ha
          obtain ⟨vs, hvs, hcons'⟩ := ih h
          obtain ⟨u, rest, rfl⟩ := hcons.exists_cons hlt
          exact ⟨_, .manyCons (by simp) hus hvs, hcons.trans hcons'⟩
        · rw [Except.ok.injEq] at h
          subst h
          exact ⟨[], .manyNil _, .nothing rfl rfl rfl⟩
      · rw [Except.ok.injEq] at h
        subst h
        exact ⟨[], .manyNil _, .nothing rfl rfl rfl⟩
    | ref n =>
      obtain ⟨us, hus, hcons⟩ := ih h
      exact ⟨us, .ref hus, hcons⟩
    | node k a =>
      simp only [Rule.read] at h
      split at h
      · simp [Reading.stuck] at h
      · next first rest hrest =>
        split at h
        · simp at h
        · next s1 ha =>
          split at h
          · next hlt =>
            rw [Except.ok.injEq] at h
            subst h
            obtain ⟨us, hus, hcons⟩ := ih ha
            obtain ⟨u, us, rfl⟩ := hcons.exists_cons hlt
            have hfirst : first = u.token := by
              have := hcons.rest
              rw [show (s.under k []).rest = s.rest from rfl, hrest] at this
              exact (List.cons.inj this).1
            refine ⟨u :: us, ?_, hcons.rest, hcons.count, hcons.prev⟩
            have hnode := Reads.node (f := s.frame) hus
            rwa [Use.span, ← hcons.prev_eq, ← hfirst] at hnode
          · simp [Reading.stuck] at h
    | wrap k r a =>
      simp only [Rule.read] at h
      split at h
      · simp [Reading.stuck] at h
      · next head before hbuilt =>
        split at h
        · simp at h
        · next s1 ha =>
          split at h
          · next hlt =>
            rw [Except.ok.injEq] at h
            subst h
            obtain ⟨us, hus, hcons⟩ := ih ha
            obtain ⟨u, us, rfl⟩ := hcons.exists_cons hlt
            refine ⟨u :: us, ?_, hcons.rest, hcons.count, hcons.prev⟩
            have hinner : Reads g a (u :: us) ⟨k, [(r.map head.withRole).getD head]⟩ s1.frame := by
              cases r <;> exact hus
            rw [Reading.frame, hbuilt]
            have hwrap : Reads g (.wrap k r a) (u :: us) ⟨s.kind, head :: before⟩ _ := .wrap hinner
            rwa [Use.span, ← hcons.prev_eq] at hwrap
          · simp [Reading.stuck] at h
    | become k =>
      rw [Rule.read, Except.ok.injEq] at h
      subst h
      exact ⟨[], .become _, .nothing rfl rfl rfl⟩
    | role r a =>
      simp only [Rule.read] at h
      split at h
      · simp at h
      · next s1 ha =>
        rw [Except.ok.injEq] at h
        subst h
        obtain ⟨us, hus, hcons⟩ := ih ha
        have hrole : Reads g (.role r a) us s.frame
            ⟨s1.frame.kind, s1.frame.built.map (Tree.withRole r) ++ s.frame.built⟩ := .role hus
        exact ⟨us, hrole, hcons.rest, hcons.count, hcons.prev⟩
    | only ks a =>
      simp only [Rule.read] at h
      split at h
      · simp at h
      · next s1 ha =>
        split at h
        · next hall =>
          rw [Except.ok.injEq] at h
          subst h
          obtain ⟨us, hus, hcons⟩ := ih ha
          have hks : ∀ t ∈ s1.built, t.kind ∈ ks := by simpa using hall
          have honly : Reads g (.only ks a) us s.frame
              ⟨s1.frame.kind, s1.frame.built ++ s.frame.built⟩ := .only hus hks
          exact ⟨us, honly, hcons.rest, hcons.count, hcons.prev⟩
        · simp at h
    | ahead t =>
      obtain rfl := Reading.look_eq_ok h
      exact ⟨[], .ahead _, .nothing rfl rfl rfl⟩
    | notAhead t =>
      obtain rfl := Reading.look_eq_ok h
      exact ⟨[], .notAhead _, .nothing rfl rfl rfl⟩

end Redeploy.Syntax
