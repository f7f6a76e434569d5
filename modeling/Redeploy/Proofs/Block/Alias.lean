import Redeploy.Block.Catalog
import Redeploy.Migration.Deprecated
import Redeploy.Proofs.Binding.History
import Redeploy.Proofs.Binding.Path

set_option autoImplicit false

/-! # Imports under another name

A class can be imported under its own name or under another one, and a script then writes the one name or
the other (`RenamesHead`). The full path of what is written is the same in both cases, so it counts for
nothing which name it is wherever the full path is looked at: for the deprecated class, and for calls of a
method. A catalog looks at the name as it is written in one place, where it tells from its first letter
whether a call makes a new block; there the two scripts are answered alike exactly if both names begin like
the name of a class, or none does (`resolveBound_alias_iff`). -/

namespace Redeploy

/-- Two chains of attributes are the same but for the variables that they start at. -/
inductive Expr.RenamesHead (old new : String) : Expr → Expr → Prop where
  /-- The variables. -/
  | name (span span' : Option Span) : RenamesHead old new (.name old span) (.name new span')
  /-- The same attribute of two chains. -/
  | member {value value' : Expr} (h : RenamesHead old new value value') (attr : String)
    (span span' : Option Span) : RenamesHead old new (.member value attr span) (.member value' attr span')

open Redeploy.Expr (RenamesHead)

variable {old new module : String} {s : Scope} {e e' : Expr}

/-! ## Paths -/

theorem HasHead.append {path head tail : String} (h : HasHead path head tail) (attr : String) :
    HasHead (path ++ "." ++ attr) head (tail ++ "." ++ attr) := by
  cases h with
  | bare h => simpa [String.append_assoc] using HasHead.dotted h attr
  | dotted h rest => simpa [String.append_assoc] using HasHead.dotted h (rest ++ "." ++ attr)

/-- The paths of the two chains have the same rest behind their heads. -/
theorem Expr.RenamesHead.exists_path (h : RenamesHead old new e e') (hold : '.' ∉ old.toList)
    (hnew : '.' ∉ new.toList) : ∃ path path' tail, e.dottedPath? = some path ∧
      e'.dottedPath? = some path' ∧ HasHead path old tail ∧ HasHead path' new tail := by
  induction h with
  | name => exact ⟨old, new, "", rfl, rfl, .bare hold, .bare hnew⟩
  | member _ attr _ _ ih =>
    obtain ⟨path, path', tail, hpath, hpath', hhead, hhead'⟩ := ih
    refine ⟨path ++ "." ++ attr, path' ++ "." ++ attr, tail ++ "." ++ attr, ?_, ?_, hhead.append attr,
      hhead'.append attr⟩
    · rw [Expr.dottedPath?, hpath, Option.map_some]
    · rw [Expr.dottedPath?, hpath', Option.map_some]

namespace Scope

/-- The scope after a class is imported from a module, under its own name or under another one. -/
def importing (s : Scope) (module name : String) (asName : Option String) : Scope :=
  s.recordImport ⟨module, some name, asName⟩

theorem qualify?_importing {name path tail : String} {asName : Option String}
    (h : HasHead path (asName.getD name) tail) :
    (s.importing module name asName).qualify? path = some (module ++ "." ++ name ++ tail) := by
  have hbound : Import.boundName ⟨module, some name, asName⟩ = asName.getD name := by
    cases asName <;> rfl
  rw [importing, qualify?_of_hasHead h, importFor?_recordImport, hbound, if_pos rfl]
  rfl

end Scope

/-- The full path of what is written does not tell the two names apart. -/
theorem Expr.RenamesHead.exists_full (h : RenamesHead old new e e') (hold : '.' ∉ old.toList)
    (hnew : '.' ∉ new.toList) (s : Scope) (module : String) : ∃ path path' full,
      e.dottedPath? = some path ∧ e'.dottedPath? = some path' ∧
      (s.importing module old none).qualify? path = some full ∧
      (s.importing module old (some new)).qualify? path' = some full := by
  obtain ⟨path, path', tail, hpath, hpath', hhead, hhead'⟩ := h.exists_path hold hnew
  exact ⟨path, path', _, hpath, hpath', Scope.qualify?_importing hhead, Scope.qualify?_importing hhead'⟩

/-! ## The deprecated class -/

theorem isClass_alias (h : RenamesHead old new e e') (hold : '.' ∉ old.toList) (hnew : '.' ∉ new.toList) :
    Deprecated.isClass (s.importing module old (some new)) e' =
      Deprecated.isClass (s.importing module old none) e := by
  obtain ⟨path, path', full, hpath, hpath', hfull, hfull'⟩ := h.exists_full hold hnew s module
  simp only [Deprecated.isClass, hpath, hpath', Deprecated.isClassPath, hfull, hfull']

/-! ## Blocks at hand -/

namespace Catalog

variable {c : Catalog} {args : List Expr} {keywords : List (Keyword Expr)} {span span' : Option Span}

theorem loadedSlug?_congr {s' : Scope} {path path' full method blockName : String}
    (h : s.qualify? path = some full) (h' : s'.qualify? path' = some full) :
    c.loadedSlug? s' path' method blockName = c.loadedSlug? s path method blockName := by
  simp only [loadedSlug?, h, h', isHelper, Option.getD_some]

/-- A call of a method stands for the same block. -/
theorem direct?_alias_member (h : RenamesHead old new e e') (hold : '.' ∉ old.toList)
    (hnew : '.' ∉ new.toList) (attr : String) (memberSpan memberSpan' : Option Span) :
    c.direct? (s.importing module old (some new))
        (.call (.member e' attr memberSpan') args keywords span') =
      c.direct? (s.importing module old none) (.call (.member e attr memberSpan) args keywords span) := by
  obtain ⟨path, path', full, hpath, hpath', hfull, hfull'⟩ := h.exists_full hold hnew s module
  simp only [direct?, hpath, hpath', loadedSlug?_congr hfull hfull', bind, Option.bind]

/-- A call of a class by its name makes the same block if both names are written like names of classes. -/
theorem direct?_alias_name_iff (nameSpan nameSpan' : Option Span) :
    c.direct? (s.importing module old (some new)) (.call (.name new nameSpan') args keywords span') =
      c.direct? (s.importing module old none) (.call (.name old nameSpan) args keywords span) ↔
        isClassName new = isClassName old := by
  simp only [direct?]
  cases isClassName new <;> cases isClassName old <;> simp

/-- A script that imports a class under another name is answered like the script that imports it under its
    own name, unless it calls the class by the bare name to make a new block, and only one of the names is
    written like that of a class. Whether a call is deprecated does not depend on the name at all. -/
theorem resolveBound_alias_iff (c : Catalog) (s : Scope) (module old new : String)
    (hold : '.' ∉ old.toList) (hnew : '.' ∉ new.toList) :
    (∀ func func' args keywords span span', RenamesHead old new func func' →
      (c.resolver.resolveBound (.call func' args keywords span') (s.importing module old (some new)) =
        c.resolver.resolveBound (.call func args keywords span) (s.importing module old none) ↔
          (∃ value attr memberSpan, func = .member value attr memberSpan) ∨
            isClassName new = isClassName old)) ∧
    ∀ receiver receiver', RenamesHead old new receiver receiver' →
      Deprecated.isClass (s.importing module old (some new)) receiver' =
        Deprecated.isClass (s.importing module old none) receiver := by
  refine ⟨fun func func' args keywords span span' h => ?_, fun receiver receiver' h =>
    isClass_alias h hold hnew⟩
  simp only [resolver, evaluate?]
  -- only a call by the bare name can make a block, and looks at how the name is written
  cases h with
  | name nameSpan nameSpan' =>
    rw [direct?_alias_name_iff]
    simp
  | member h attr memberSpan memberSpan' =>
    exact iff_of_true (direct?_alias_member h hold hnew ..) (.inl ⟨_, attr, memberSpan, rfl⟩)

/-- A catalog with one block, which is loaded by its class. -/
def jobCatalog : Catalog := empty.insert "kubernetes-job/my-job" [("image", .text "a/b")]

/-- The block is found also by a class that is imported under a name in lowercase, and another one is made
    also by a class that is imported under another name in capitals. -/
theorem resolveBound_alias_job :
    jobCatalog.resolver.resolveBound
        (.call (.member (.name "k8s" none) "load" none) [.literal "my-job"] [] none)
        (Scope.empty.importing "prefect.infrastructure" "KubernetesJob" (some "k8s")) =
      some [("image", .text "a/b")] ∧
    jobCatalog.resolver.resolveBound
        (.call (.name "K8S" none) [] [⟨some "image", .literal "c/d"⟩] none)
        (Scope.empty.importing "prefect.infrastructure" "KubernetesJob" (some "K8S")) =
      some [("image", .text "c/d")] ∧
    Deprecated.isClass (Scope.empty.importing "prefect.deployments" "Deployment" (some "d")) (.name "d" none) =
      true := by
  have hk8s := resolveBound_alias_iff jobCatalog .empty "prefect.infrastructure" "KubernetesJob" "k8s"
    (by decide) (by decide)
  have hK8S := resolveBound_alias_iff jobCatalog .empty "prefect.infrastructure" "KubernetesJob" "K8S"
    (by decide) (by decide)
  have hd := resolveBound_alias_iff jobCatalog .empty "prefect.deployments" "Deployment" "d"
    (by decide) (by decide)
  have hload := (hk8s.1 _ _ [.literal "my-job"] [] none none
    (.member (.name none none) "load" none none)).2 (.inl ⟨_, _, _, rfl⟩)
  have hmake := (hK8S.1 _ _ [] [⟨some "image", .literal "c/d"⟩] none none (.name none none)).2 (.inr rfl)
  have hclass := hd.2 _ _ (.name none none)
  exact ⟨hload.trans rfl, hmake.trans rfl, hclass.trans rfl⟩

/-- A class that is imported under a name in lowercase makes no block that could be told. -/
theorem alias_loses_block :
    Catalog.empty.resolver.resolveBound
        (.call (.name "KubernetesJob" none) [] [⟨some "image", .literal "a/b"⟩] none)
        (Scope.empty.importing "prefect.infrastructure" "KubernetesJob" none) =
      some [("image", .text "a/b")] ∧
    Catalog.empty.resolver.resolveBound
        (.call (.name "k8s" none) [] [⟨some "image", .literal "a/b"⟩] none)
        (Scope.empty.importing "prefect.infrastructure" "KubernetesJob" (some "k8s")) = none :=
  ⟨rfl, rfl⟩

end Catalog

end Redeploy
