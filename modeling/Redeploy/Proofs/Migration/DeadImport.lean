import Redeploy.Migration.DeadImport
import Redeploy.Proofs.Syntax.Nodes
import Redeploy.Proofs.Text.Cut

set_option autoImplicit false

/-! # The edits of dead imports

An import statement that loses a name is either written anew in its place or deleted with its line,
and it is deleted exactly if no name is left (`editOf?_eq_some`). -/

namespace Redeploy.Migration.Usage

open Syntax (Tree Kind)

variable {u : Usage} {t : Tree} {e : Edit}

/-- What a statement that loses a name is written as, with the names that are left. -/
def rewritten (module : String) (names : List String) : Text :=
  ("from " ++ module ++ " import " ++ ", ".intercalate names).toList

theorem rewritten_ne_nil (module : String) (names : List String) : rewritten module names ≠ [] := by
  simp [rewritten]

/-- The edit of a statement: it is an import statement with a dead name, and is deleted with its line
    if all its names are dead, and written anew with the others if not. -/
theorem editOf?_eq_some (h : u.editOf? t = some e) :
    t.kind = .importFromStatement ∧ ∃ m, t.child? .moduleName = some m ∧
      (∃ name ∈ t.childrenIn .name, u.isDead (m.text u.script.source) name = true) ∧
      (((∀ name ∈ t.childrenIn .name, u.isDead (m.text u.script.source) name = true) ∧
          e = ⟨t.span.startByte, u.script.source.lineEnd t.span.endByte, []⟩) ∨
        e = ⟨t.span.startByte, t.span.endByte, rewritten (m.text u.script.source)
          (((t.childrenIn .name).filter fun name => !u.isDead (m.text u.script.source) name).map
            (Tree.text u.script.source))⟩) := by
  unfold editOf? at h
  split at h
  · next m hkind hm =>
    simp only at h
    split at h
    · simp at h
    · next hsome =>
      refine ⟨hkind, m, hm, ?_, ?_⟩
      · simpa using hsome
      · split at h
        · next hkept =>
          rw [Option.some.injEq] at h
          refine .inl ⟨?_, h.symm⟩
          simpa using hkept
        · rw [Option.some.injEq] at h
          exact .inr h.symm
  · simp at h

/-- A statement that is written anew keeps a name. -/
theorem kept_ne_nil_of_editOf? {m : Tree} (h : u.editOf? t = some e) (htext : e.text ≠ [])
    (hm : t.child? .moduleName = some m) :
    (t.childrenIn .name).filter (fun name => !u.isDead (m.text u.script.source) name) ≠ [] := by
  intro hnil
  unfold editOf? at h
  split at h
  · next m' _ hm' =>
    obtain rfl := Option.some.inj (hm.symm.trans hm')
    simp only [hnil] at h
    split at h
    · simp at h
    · obtain rfl := Option.some.inj h
      exact htext rfl
  · simp at h

theorem start_of_editOf? (h : u.editOf? t = some e) : e.start = t.span.startByte := by
  obtain ⟨-, m, -, -, ⟨-, rfl⟩ | rfl⟩ := editOf?_eq_some h <;> rfl

theorem stop_of_editOf? (h : u.editOf? t = some e) :
    (e.text = [] ∧ e.stop = u.script.source.lineEnd t.span.endByte) ∨
      (e.text ≠ [] ∧ e.stop = t.span.endByte) := by
  obtain ⟨-, m, -, -, ⟨-, rfl⟩ | rfl⟩ := editOf?_eq_some h
  · exact .inl ⟨rfl, rfl⟩
  · exact .inr ⟨rewritten_ne_nil _ _, rfl⟩

theorem kind_of_editOf? (h : u.editOf? t = some e) : t.kind = .importFromStatement :=
  (editOf?_eq_some h).1

/-- A statement with a dead import is not empty. -/
theorem lt_of_editOf? (hnested : t.Nested) (hspan : t.span.startByte ≤ t.span.endByte)
    (h : u.editOf? t = some e) : t.span.startByte < t.span.endByte := by
  obtain ⟨-, m, hm, ⟨name, -, hdead⟩, -⟩ := editOf?_eq_some h
  have hmem : m ∈ t.nodes :=
    Tree.mem_nodes.2 (.inr ⟨m, List.mem_of_find?_eq_some hm, m.self_mem_nodes⟩)
  -- the module that the class is in has a name
  have hslice : u.script.source.slice m.span.startByte m.span.endByte ≠ [] := by
    intro hnil
    unfold isDead at hdead
    split at hdead
    · next imported bound _ =>
      rw [Bool.and_eq_true, Tree.text, hnil] at hdead
      have hpath := List.contains_iff_mem.1 hdead.1
      simp only [Deprecated.classPaths, List.mem_cons, List.not_mem_nil, or_false] at hpath
      rcases hpath with hpath | hpath <;>
      · have := congrArg String.toList hpath
        simp at this
    · simp at hdead
  have hlt := Text.lt_of_slice_ne_nil hslice
  have := hnested.bounds hspan hmem
  omega

end Redeploy.Migration.Usage
