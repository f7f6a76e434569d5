import Mathlib.Logic.Relation
import Redeploy.Proofs.Call.Readings

set_option autoImplicit false

/-! # Rewording a call

A call is classified by its positional arguments and by the last values of some names among its keyword
arguments, and by nothing else (`classified_by_last_values`). One step of rewording exchanges two
neighbours of different names, or adds or drops an argument that has no meaning for the migration; it
leaves all these last values as they are, and so do any number of steps. -/

namespace Redeploy.CallSite

open Redeploy.Expr (lookupKeyword)

variable {args : List Expr} {keywords keywords' : List (Keyword Expr)}

/-- The names of the keyword arguments that a call is classified by: those with a meaning of their own,
    the former spelling of `job_variables`, and those that are taken over. -/
def meaningfulKeywords : List String :=
  roleKeywords ++ formerJobVariables :: CallKey.all.map CallKey.keyword

theorem keyword_mem_meaningfulKeywords (key : CallKey) : key.keyword ∈ meaningfulKeywords := by
  cases key <;> decide

/-! ## What one call and the other have in common -/

/-- What is put together of two calls with the same last values differs in nothing but the calls. -/
theorem assemble_congr {site site' : CallSite} {ctx : CallContext} {subject : Expr}
    {source : Option BlockReference} {env : Option Environment} (hspan : site'.span = site.span)
    (h : AgreeOn (· ∈ meaningfulKeywords) keywords keywords') :
    site'.assemble ctx subject args keywords' source env =
      { site.assemble ctx subject args keywords source env with call := site'.call } := by
  rw [agreeOn_iff] at h
  have hentrypoint : entrypoint ctx.file subject keywords = entrypoint ctx.file subject keywords' :=
    entrypoint_congr (h _ (by decide)) (h _ (by decide))
  have hcarried : carriedArguments args keywords = carriedArguments args keywords' :=
    carriedArguments_congr (fun key => h _ (keyword_mem_meaningfulKeywords key)) (h _ (by decide))
  simp only [assemble, finalCarried, hspan, hentrypoint, hcarried]

/-- Two calls with the same last values either fail with the same error, or are classified as the same
    but for the calls. -/
theorem classify_congr (h : AgreeOn (· ∈ meaningfulKeywords) keywords keywords') (func func' : Expr)
    (callSpan callSpan' : Option Span) (span : Span) (ctx : CallContext) :
    (CallSite.mk (.call func' args keywords' callSpan') span).classify ctx =
      ((CallSite.mk (.call func args keywords callSpan) span).classify ctx).map fun c =>
        { c with call := .call func' args keywords' callSpan' } := by
  have hvalue := agreeOn_iff.1 h
  simp only [classify, classifyWith_eq]
  rw [← subject?_congr (hvalue "flow" (by decide)), ← remoteSource_congr (hvalue "storage" (by decide)),
    ← environment_congr (hvalue "infrastructure" (by decide))]
  cases subject? args keywords with
  | none => rfl
  | some subject =>
    cases remoteSource ctx span keywords with
    | error e => rfl
    | ok source =>
      cases environment ctx span keywords with
      | error e => rfl
      | ok env => exact congrArg Except.ok (assemble_congr rfl h)

/-! ## Steps of rewording -/

/-- An argument that has no meaning for a migration, by its name. -/
inductive IsIdle : Option String → Prop where
  /-- A mapping that is spread. -/
  | spread : IsIdle none
  /-- A keyword that the deprecated call needed for itself. -/
  | internal {name : String} (h : name ∈ internalKeywords) : IsIdle (some name)
  /-- A keyword that is not known. -/
  | unknown {name : String} (h : name ∉ meaningfulKeywords) : IsIdle (some name)

theorem IsIdle.ne_of_mem {name : Option String} (h : IsIdle name) {arg : String}
    (harg : arg ∈ meaningfulKeywords) : name ≠ some arg := by
  rintro rfl
  cases h with
  | internal h => exact (by decide : ∀ name ∈ internalKeywords, name ∉ meaningfulKeywords) arg h harg
  | unknown h => exact h harg

/-- One step of rewording the keyword arguments of a call. -/
inductive Rewording : List (Keyword Expr) → List (Keyword Expr) → Prop where
  /-- Two neighbours of different names change places. -/
  | exchange (before behind : List (Keyword Expr)) {kw kw' : Keyword Expr} (h : kw.arg ≠ kw'.arg) :
    Rewording (before ++ kw :: kw' :: behind) (before ++ kw' :: kw :: behind)
  /-- An argument without a meaning is dropped. -/
  | drop (before behind : List (Keyword Expr)) {kw : Keyword Expr} (h : IsIdle kw.arg) :
    Rewording (before ++ kw :: behind) (before ++ behind)

/-- Two lists of keyword arguments that any number of steps of rewording, there or back, lead from one to
    the other. -/
def Reworded : List (Keyword Expr) → List (Keyword Expr) → Prop :=
  Relation.EqvGen Rewording

theorem Rewording.lookupKeyword_eq (h : Rewording keywords keywords') {arg : String}
    (harg : arg ∈ meaningfulKeywords) : lookupKeyword arg keywords = lookupKeyword arg keywords' := by
  cases h with
  | exchange before behind hne =>
    next kw kw' =>
    simp only [Expr.lookupKeyword_append, Expr.lookupKeyword_cons]
    -- at most one of the two has the name that is looked up
    by_cases hkw : kw.arg = some arg
    · have hkw' : ¬ kw'.arg = some arg := fun hkw' => hne (hkw.trans hkw'.symm)
      rw [if_neg hkw', Option.or_none, Option.or_none]
    · rw [if_neg hkw, Option.or_none, Option.or_none]
  | drop before behind hidle =>
    simp only [Expr.lookupKeyword_append, Expr.lookupKeyword_cons, if_neg (hidle.ne_of_mem harg),
      Option.or_none]

/-- However often a call is reworded, it keeps its last values. -/
theorem Reworded.agreeOn (h : Reworded keywords keywords') :
    AgreeOn (· ∈ meaningfulKeywords) keywords keywords' := by
  rw [agreeOn_iff]
  intro arg harg
  induction h with
  | rel _ _ step => exact step.lookupKeyword_eq harg
  | refl _ => rfl
  | symm _ _ _ ih => exact ih.symm
  | trans _ _ _ _ _ ih ih' => exact ih.trans ih'

/-- A call that is reworded keeps the last values that it is classified by. Two calls with the same
    positional arguments and the same of these last values, at the same place, either fail with the
    same error, or are classified as the same but for the calls as they are written. -/
theorem classified_by_last_values (args : List Expr) (keywords keywords' : List (Keyword Expr)) :
    (Reworded keywords keywords' → AgreeOn (· ∈ meaningfulKeywords) keywords keywords') ∧
    (AgreeOn (· ∈ meaningfulKeywords) keywords keywords' →
      ∀ (func func' : Expr) (callSpan callSpan' : Option Span) (span : Span) (ctx : CallContext),
        (CallSite.mk (.call func' args keywords' callSpan') span).classify ctx =
          ((CallSite.mk (.call func args keywords callSpan) span).classify ctx).map fun c =>
            { c with call := .call func' args keywords' callSpan' }) :=
  ⟨Reworded.agreeOn, classify_congr⟩

/-- The keyword arguments of a call with a former name and repeated ones, reworded: `timestamp` is
    dropped, a mapping is spread, and the infrastructure changes places with a neighbour. -/
def rewordedKeywords : List (Keyword Expr) :=
  [⟨none, .name "extra" none⟩, ⟨some "infra_overrides", .name "a" none⟩,
    ⟨some "infrastructure",
      .call (.name "DockerContainer" none) [] [⟨some "image", .literal "a/b"⟩] none⟩,
    ⟨some "tags", .name "t" none⟩, ⟨some "job_variables", .name "b" none⟩,
    ⟨some "tags", .name "u" none⟩, ⟨some "image", .literal "c/d"⟩]

/-- Both wordings get the same replacement. -/
theorem classified_by_last_values_crowded : Reworded crowdedKeywords rewordedKeywords ∧
    ∃ c, crowdedCall.classify plainContext = .ok c ∧
      c.replacementText = "f.deploy(name=\"daily\", tags=u, job_variables=a, image=\"a/b\")" ∧
      (CallSite.mk (.call (.name "g" none) [.name "f" none, .literal "daily"] rewordedKeywords none)
        .zero).classify plainContext =
          .ok { c with
            call := .call (.name "g" none) [.name "f" none, .literal "daily"] rewordedKeywords none } := by
  have hexchange : Rewording crowdedKeywords
      (rewordedKeywords.tail ++ [⟨some "timestamp", .name "now" none⟩]) :=
    .exchange [⟨some "infra_overrides", .name "a" none⟩] _ (by simp)
  have hdrop : Rewording (rewordedKeywords.tail ++ [⟨some "timestamp", .name "now" none⟩])
      rewordedKeywords.tail := .drop rewordedKeywords.tail [] (.internal (by decide))
  have hspread : Rewording rewordedKeywords rewordedKeywords.tail := .drop [] _ .spread
  have hreworded : Reworded crowdedKeywords rewordedKeywords :=
    .trans _ _ _ (.rel _ _ hexchange) (.trans _ _ _ (.rel _ _ hdrop) (.symm _ _ (.rel _ _ hspread)))
  have hrun : (crowdedCall.classify plainContext).map ClassifiedCall.replacementText =
      .ok "f.deploy(name=\"daily\", tags=u, job_variables=a, image=\"a/b\")" := by
    decide +kernel
  obtain ⟨c, hclassify, htext⟩ := exists_of_map_eq_ok hrun
  obtain ⟨hagree, heq⟩ := classified_by_last_values [.name "f" none, .literal "daily"] crowdedKeywords
    rewordedKeywords
  refine ⟨hreworded, c, hclassify, htext, ?_⟩
  rw [heq (hagree hreworded) (.member (.name "Deployment" none) "build_from_flow" none) _ none]
  exact congrArg (Except.map _) hclassify

end Redeploy.CallSite
