import Redeploy.Proofs.Migration.Edits
import Redeploy.Proofs.Syntax.Gaps

set_option autoImplicit false

/-! # What the edit of a dead import takes away

The edit of an import statement replaces the statement alone or deletes it with the rest of its line. It
touches no other statement unless one begins on the rest of that line (`frame_of_editOf?`). -/

namespace Redeploy.Migration.Usage

open Syntax

variable {u : Usage} {pre post : List Tree} {t : Tree} {e : Edit} {source : Text}

/-- What keeps two statements apart when what is between them has been taken out in the middle. -/
theorem keepApart_append {front behind : List Separator} {q : Tree}
    (hfront : front.Pairwise fun _ s => s = .lineBreak)
    (hbehind : behind.Pairwise fun _ s => s = .lineBreak) :
    KeepApart (front ++ behind) q ↔ (front ≠ [] → .semicolon ∉ behind) ∧
      (.lineBreak ∈ front ++ behind ∨ (.semicolon ∈ front ++ behind ∧ isCompound q.kind = false)) := by
  have hjoin : (∀ a ∈ front, ∀ b ∈ behind, b = Separator.lineBreak) ↔
      (front ≠ [] → .semicolon ∉ behind) := by
    constructor
    · intro h hne hmem
      obtain ⟨a, ha⟩ := List.exists_mem_of_ne_nil front hne
      have := h a ha _ hmem
      simp at this
    · intro h a ha b hb
      cases b with
      | lineBreak => rfl
      | semicolon => exact absurd hb (h (List.ne_nil_of_mem ha))
  rw [KeepApart, List.pairwise_append, hjoin]
  simp [hfront, hbehind]

/-- The separators that are left between two statements when an edit takes out what is between them. -/
def separatorsLeft (source : Text) (e : Edit) (p q : Tree) : List Separator :=
  separators source p.span.endByte e.start ++ separators source e.stop q.span.startByte

/-- No statement behind the rest of a line begins in front of its end exactly if none begins on it. -/
theorem forall_le_lineEnd_iff {n : Nat} (hpost : ∀ s ∈ post, n ≤ s.span.startByte) :
    (∀ s ∈ post, source.lineEnd n ≤ s.span.startByte) ↔
      ∀ s ∈ post, ¬ source.OnLineBehind n s.span.startByte := by
  constructor
  · intro h s hs hline
    exact Nat.not_lt.2 (h s hs) hline.2
  · intro h s hs
    exact Nat.le_of_not_lt fun hlt => h s hs ⟨hpost s hs, hlt⟩

/-- The separators in front of a statement are those behind the one before it: a semicolon can only be
    the first of them. -/
theorem pairwise_separators_front {ps : List Placed} (hps : Mended source ps) {p : Tree}
    (hread : readTokens (tokensOf ps) = .ok (pre ++ p :: t :: post)) :
    (separators source p.span.endByte t.span.startByte).Pairwise fun _ s => s = .lineBreak := by
  obtain ⟨X, last, vs, ws, hgap⟩ := exists_gapAt hread
  refine hgap.pairwise_separators hps (Nat.le_refl _) fun q hq => ?_
  rw [List.head?_cons, Option.mem_some_iff] at hq
  exact hq ▸ Nat.le_refl _

/-- Between two statements something keeps them apart, unless a line break has been added there. -/
theorem exists_added_of_separators_eq_nil {ps : List Placed} (hps : Mended source ps) {p : Tree}
    (hread : readTokens (tokensOf ps) = .ok (pre ++ p :: t :: post))
    (hnil : separators source p.span.endByte t.span.startByte = []) :
    ∃ a ∈ ps, IsAddedBreak ps a ∧ p.span.endByte ≤ a.span.endByte ∧
      a.span.endByte ≤ t.span.startByte := by
  rcases keepApart_or_added hps hread with ⟨-, happart⟩ | hadded
  · rw [hnil] at happart
    simp at happart
  · exact hadded

/-- The edit of an import statement begins where the statement does, and takes nothing away of the
    statements in front of it. If some names are left, it ends where the statement does. If not, it
    ends with the line, and takes nothing away of the statements behind it exactly if none of them
    begins on the rest of that line. Then all else that it takes away is space and a semicolon at
    most; and the statements on either side are kept apart by what is left between them exactly if
    no semicolon is left behind another separator, and a line break is left or else a semicolon in
    front of a simple statement. Nothing is left in front only if a line break had to be added. -/
theorem frame_of_editOf? {file : String} (hread : Script.read file source = .ok u.script)
    (hsplit : u.script.statements = pre ++ t :: post) (he : u.editOf? t = some e) :
    t.kind = .importFromStatement ∧ e.start = t.span.startByte ∧ t.span.endByte ≤ e.stop ∧
    (∀ s ∈ pre, s.span.endByte ≤ e.start) ∧
    ((e.text ≠ [] ∧ e.stop = t.span.endByte ∧ ∀ s ∈ post, e.stop ≤ s.span.startByte) ∨
      (e.text = [] ∧ e.stop = source.lineEnd t.span.endByte ∧
        ((∀ s ∈ post, e.stop ≤ s.span.startByte) ↔
          ∀ s ∈ post, ¬ source.OnLineBehind t.span.endByte s.span.startByte) ∧
        ((∀ s ∈ post, e.stop ≤ s.span.startByte) →
          SpaceBetween source t.span.endByte e.stop ∧
          ((separators source t.span.endByte e.stop).Pairwise fun _ s => s = .lineBreak) ∧
          ∀ p ∈ pre.getLast?, ∀ q ∈ post.head?,
            (KeepApart (separatorsLeft source e p q) q ↔
              (separators source p.span.endByte e.start ≠ [] →
                .semicolon ∉ separators source e.stop q.span.startByte) ∧
              (.lineBreak ∈ separatorsLeft source e p q ∨
                (.semicolon ∈ separatorsLeft source e p q ∧ isCompound q.kind = false))) ∧
            (separators source p.span.endByte e.start = [] →
              ∃ ps, Mended source ps ∧ readTokens (tokensOf ps) = .ok u.script.statements ∧
                ∃ a ∈ ps, IsAddedBreak ps a ∧ p.span.endByte ≤ a.span.endByte ∧
                  a.span.endByte ≤ e.start)))) := by
  obtain ⟨hp, hsource, -⟩ := parse_of_read hread
  obtain ⟨ps, hps, htokens, -⟩ := exists_statements_of_parse hp
  have horder := inOrder_of_parse hp
  have hstatements : u.script.root.children = pre ++ t :: post := hsplit
  rw [hstatements] at htokens horder
  have hpairwise := horder.pairwise
  obtain ⟨-, hbehind, hfront⟩ := List.pairwise_append.1 hpairwise
  have hpre : ∀ s ∈ pre, s.span.endByte ≤ t.span.startByte := fun s hs =>
    hfront s hs t List.mem_cons_self
  have hpost : ∀ s ∈ post, t.span.endByte ≤ s.span.startByte := (List.pairwise_cons.1 hbehind).1
  have hcut : source.IsCut t.span.endByte := by
    have hmem : t ∈ u.script.root.children := by simp [hstatements]
    exact (isCut_of_parse hp t (Tree.mem_nodes.2 (.inr ⟨t, hmem, t.self_mem_nodes⟩))).2
  have hkind := kind_of_editOf? he
  have hsimple : isCompound t.kind = false := by
    rw [hkind]
    rfl
  have hstart := start_of_editOf? he
  have hstop := stop_of_editOf? he
  rw [hsource] at hstop
  rw [hstart]
  refine ⟨hkind, rfl, ?_, hpre, ?_⟩
  · rcases hstop with ⟨-, hstop⟩ | ⟨-, hstop⟩
    · rw [hstop]
      exact Text.le_lineEnd hcut
    · exact Nat.le_of_eq hstop.symm
  rcases hstop with ⟨hnil, hstop⟩ | ⟨hne, hstop⟩
  · right
    rw [hstop]
    refine ⟨hnil, rfl, forall_le_lineEnd_iff hpost, fun hclear => ?_⟩
    obtain ⟨X, last, vs, ws, hgap⟩ := exists_gapAt htokens
    have hhead : ∀ q ∈ post.head?, source.lineEnd t.span.endByte ≤ q.span.startByte := fun q hq =>
      hclear q (List.mem_of_mem_head? hq)
    refine ⟨spaceBetween_lineEnd hps htokens hsimple hhead,
      hgap.pairwise_separators hps (Nat.le_refl _) hhead, ?_⟩
    intro p hlast q hq
    obtain ⟨pre', rfl⟩ : ∃ pre', pre = pre' ++ [p] :=
      ⟨_, (List.dropLast_append_getLast? p hlast).symm⟩
    rw [List.append_assoc, List.singleton_append] at htokens
    refine ⟨?_, fun hempty => ?_⟩
    · rw [separatorsLeft, hstart, hstop]
      refine keepApart_append (pairwise_separators_front hps htokens) ?_
      refine hgap.pairwise_separators hps (Text.le_lineEnd hcut) fun r hr => ?_
      obtain rfl := Option.mem_unique hr hq
      exact Nat.le_refl _
    · refine ⟨ps, hps, ?_, exists_added_of_separators_eq_nil hps htokens hempty⟩
      rw [htokens, hsplit]
      simp
  · left
    rw [hstop]
    exact ⟨hne, rfl, hpost⟩

/-- An import with a comment behind it, between two statements on lines of their own: it leaves the line
    break in front of it. -/
theorem frame_commented_import : ∃ script f p t q e,
    Script.read "flow.py" ("import f\nfrom prefect.deployments import Deployment  # x\n" ++
      "Deployment.build_from_flow(f)\n").toList = .ok script ∧
    find ⟨.offline, .standard⟩ script = .ok f ∧ script.statements = [p, t, q] ∧
    (f.usage script).editOf? t = some e ∧ SpaceBetween script.source t.span.endByte e.stop ∧
    KeepApart (separatorsLeft script.source e p q) q := by
  have hrun : ((Script.read "flow.py" ("import f\nfrom prefect.deployments import Deployment  # x\n" ++
      "Deployment.build_from_flow(f)\n").toList).bind fun s =>
        (find ⟨.offline, .standard⟩ s).map fun f =>
          (s.statements.map fun t => (t.span.startByte, t.span.endByte),
            s.statements.map (f.usage s).editOf?)) =
      .ok ([(0, 8), (9, 51), (57, 86)], [none, some ⟨9, 57, []⟩, none]) := by decide +kernel
  obtain ⟨script, f, hread, hfind, heq⟩ := exists_of_run hrun
  obtain ⟨hspans, hedits⟩ : _ ∧ _ := by simpa only [Prod.mk.injEq] using heq
  obtain ⟨p, t, q, hstatements⟩ : ∃ p t q, script.statements = [p, t, q] := by
    obtain ⟨p, xs, hp, -, hxs⟩ := List.map_eq_cons_iff.1 hspans
    obtain ⟨t, ys, rfl, -, hys⟩ := List.map_eq_cons_iff.1 hxs
    obtain ⟨q, zs, rfl, -, hzs⟩ := List.map_eq_cons_iff.1 hys
    rw [List.map_eq_nil_iff.1 hzs] at hp
    exact ⟨p, t, q, hp⟩
  simp only [hstatements, List.map_cons, List.map_nil, List.cons.injEq, Prod.mk.injEq] at hspans hedits
  obtain ⟨⟨-, hpend⟩, ⟨-, htend⟩, ⟨hqstart, -⟩, -⟩ := hspans
  obtain ⟨-, he, -⟩ := hedits
  obtain ⟨-, hsource, -⟩ := parse_of_read hread
  have hsplit : script.statements = [p] ++ t :: [q] := hstatements
  have hframe := frame_of_editOf? (u := f.usage script) hread hsplit he
  obtain ⟨-, -, -, -, ⟨hne, -⟩ | ⟨-, -, -, hclear⟩⟩ := hframe
  · exact absurd rfl hne
  obtain ⟨hspace, -, hapart⟩ := hclear (by simp [hqstart])
  have hfront : separators script.source p.span.endByte 9 = [.lineBreak] := by
    rw [hsource, hpend]
    decide +kernel
  have hbehind : separators script.source 57 q.span.startByte = [] := by
    rw [hsource, hqstart]
    decide +kernel
  rw [← hsource] at hspace hapart
  refine ⟨script, f, p, t, q, _, hread, hfind, hstatements, he, hspace, ?_⟩
  refine (hapart p rfl q rfl).1.2 ⟨fun _ => ?_, .inl ?_⟩
  · simp [hbehind]
  · simp [separatorsLeft, hfront]

/-- A statement that shares its line with the import before it is lost. -/
theorem lost_statement_behind_import : ∃ script f t s e,
    Script.read "flow.py" ("from prefect.deployments import Deployment; x = 1\n" ++
      "Deployment.build_from_flow(f)\n").toList = .ok script ∧
    find ⟨.offline, .standard⟩ script = .ok f ∧ t ∈ script.statements ∧ s ∈ script.statements ∧
    (f.usage script).editOf? t = some e ∧ t.span.endByte < s.span.startByte ∧
    s.span.startByte < s.span.endByte ∧ s.span.endByte ≤ e.stop ∧
    f.updatedSource script = .ok "f.serve()\n".toList := by
  have hrun : ((Script.read "flow.py" ("from prefect.deployments import Deployment; x = 1\n" ++
      "Deployment.build_from_flow(f)\n").toList).bind fun s =>
        (find ⟨.offline, .standard⟩ s).map fun f =>
          (s.statements.map fun t => (t.span.startByte, t.span.endByte),
            s.statements.map (f.usage s).editOf?, f.edits s)) =
      .ok ([(0, 42), (44, 49), (50, 79)], [some ⟨0, 50, []⟩, none, none],
        [⟨50, 79, "f.serve()".toList⟩, ⟨0, 50, []⟩]) := by decide +kernel
  obtain ⟨script, f, hread, hfind, heq⟩ := exists_of_run hrun
  obtain ⟨hspans, hdead, hedits⟩ : _ ∧ _ ∧ _ := by simpa only [Prod.mk.injEq] using heq
  obtain ⟨t, xs, ht, htspan, hxs⟩ := List.map_eq_cons_iff.1 hspans
  obtain ⟨s, ys, rfl, hsspan, -⟩ := List.map_eq_cons_iff.1 hxs
  simp only [ht, List.map_cons, List.cons.injEq, Prod.mk.injEq] at hdead htspan hsspan
  obtain ⟨-, hsource, -⟩ := parse_of_read hread
  refine ⟨script, f, t, s, _, hread, hfind, by simp [ht], by simp [ht], hdead.1, by omega, by omega,
    Nat.le_trans (Nat.le_of_eq hsspan.2) (by decide), ?_⟩
  rw [updatedSource_of_edits hedits (by simp [Edit.backToFront]), hsource]
  decide +kernel

end Redeploy.Migration.Usage
