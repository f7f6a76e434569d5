import Redeploy.Block.Catalog
import Redeploy.Call.Reference
import Redeploy.Config.Basic
import Redeploy.Proofs.Binding.Path

set_option autoImplicit false

/-! # Load calls

A migrated script loads its blocks with a call of the helper. A catalog of the same helper knows which
block that is: the one that is stored under the slug (`resolveBound_of_isLoadCall`), unless the name of
the helper is imported from elsewhere. -/

namespace Redeploy

namespace Config

/-- A helper that can be used has a name without points. -/
theorem not_mem_name_of_checkHelper {h : LoadHelper} (hvalid : checkHelper h = .ok ()) :
    '.' ∉ h.name.toList := by
  intro hmem
  have hpoint : h.name.toList.contains '.' = true := by simpa using hmem
  simp only [checkHelper, hpoint, Bool.true_or, if_true, bind, Except.bind] at hvalid
  repeat' split at hvalid
  all_goals contradiction

/-- Settings that can be used have a helper that can be used. -/
theorem checkHelper_of_validate {c : Config} (h : c.validate = .ok ()) :
    checkHelper c.loadHelper = .ok () := by
  simp only [validate, bind, Except.bind] at h
  repeat' split at h
  all_goals first | contradiction | exact h

end Config

/-! ## Calls of the helper -/

/-- A call that loads a block with the helper, wherever it stands and however the slug is written. -/
inductive IsLoadCall (h : LoadHelper) (slug : String) : Expr → Prop where
  /-- The method of the helper, called with the slug alone. -/
  | intro (raw : Option String) (nameSpan memberSpan slugSpan callSpan : Option Span) :
    IsLoadCall h slug (.call (.member (.name h.name nameSpan) h.method memberSpan)
      [.string slug raw slugSpan] [] callSpan)

/-- The expression that migrated code uses for a stored block is a load call. -/
theorem isLoadCall_toExpr (h : LoadHelper) (slug : String) (span : Option Span) :
    IsLoadCall h slug ((BlockReference.slug slug span).toExpr h) :=
  .intro ..

/-- In a scope the name of the helper is either not imported or stands for the helper. -/
def LoadHelper.IsKnownIn (h : LoadHelper) (s : Scope) : Prop :=
  ∀ i, s.importFor? h.name = some i → i.qualifiedName = h.qualifiedName

variable {catalog : Catalog} {s : Scope} {slug : String} {e : Expr}

theorem isHelper_of_isKnownIn (hname : '.' ∉ catalog.helper.name.toList)
    (hknown : catalog.helper.IsKnownIn s) :
    catalog.isHelper catalog.helper.name (s.qualify? catalog.helper.name) = true := by
  rw [Scope.qualify?_of_not_mem hname]
  cases himport : s.importFor? catalog.helper.name with
  | none => simp [Catalog.isHelper]
  | some i => simp [Catalog.isHelper, hknown i himport]

/-- The block that a load call stands for is the one that is stored under the slug, also if the method of
    the helper is called as the methods are that load blocks of one class. -/
theorem resolveBound_of_isLoadCall (hname : '.' ∉ catalog.helper.name.toList)
    (hknown : catalog.helper.IsKnownIn s) (he : IsLoadCall catalog.helper slug e) :
    catalog.resolver.resolveBound e s = catalog.find? slug := by
  obtain ⟨raw, nameSpan, memberSpan, slugSpan, callSpan⟩ := he
  have hslug : catalog.loadedSlug? s catalog.helper.name catalog.helper.method slug = some slug := by
    rw [Catalog.loadedSlug?, if_pos ⟨rfl, isHelper_of_isKnownIn hname hknown⟩]
  simp [Catalog.resolver, Catalog.evaluate?, Catalog.direct?, Expr.asString?, Expr.dottedPath?, hslug]

end Redeploy
