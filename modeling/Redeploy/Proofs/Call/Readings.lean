import Redeploy.Proofs.Call.Replacement

set_option autoImplicit false

/-! # What keyword arguments are read for

Classifying a call reads the last values of some names and nothing else of its keyword arguments. Each
part of a classified call is the same for two lists of keyword arguments that have the same last values
for the names that the part is read off. -/

namespace Redeploy.CallSite

open Redeploy.Expr (lookupKeyword IsLastValue)

variable {args : List Expr} {keywords keywords' : List (Keyword Expr)}

/-- Two lists of keyword arguments have the same last value, or both have none, for every name with some
    property. -/
def AgreeOn (P : String → Prop) (keywords keywords' : List (Keyword Expr)) : Prop :=
  ∀ arg, P arg → ∀ v, IsLastValue keywords arg v ↔ IsLastValue keywords' arg v

theorem agreeOn_iff {P : String → Prop} : AgreeOn P keywords keywords' ↔
    ∀ arg, P arg → lookupKeyword arg keywords = lookupKeyword arg keywords' := by
  refine forall₂_congr fun arg _ => ?_
  rw [Option.ext_iff]
  simp only [← Expr.lookupKeyword_eq_some_iff]

/-- Arguments of one name that are put in the place of others of the name change no other last value. -/
theorem agreeOn_replace {name : String} (before those others behind : List (Keyword Expr))
    (hthose : ∀ kw ∈ those, kw.arg = some name) (hothers : ∀ kw ∈ others, kw.arg = some name) :
    AgreeOn (· ≠ name) (before ++ (those ++ behind)) (before ++ (others ++ behind)) := by
  rw [agreeOn_iff]
  intro arg harg
  have hnone : ∀ kws : List (Keyword Expr), (∀ kw ∈ kws, kw.arg = some name) →
      lookupKeyword arg kws = none := by
    intro kws hkws
    refine Expr.lookupKeyword_eq_none_iff.2 fun kw hkw heq => harg ?_
    exact Option.some.inj (heq.symm.trans (hkws kw hkw))
  simp only [Expr.lookupKeyword_append, hnone those hthose, hnone others hothers]

theorem subject?_congr (h : lookupKeyword "flow" keywords = lookupKeyword "flow" keywords') :
    subject? args keywords = subject? args keywords' := by
  rw [subject?, subject?, h]

theorem presentKeyword?_congr {arg : String}
    (h : lookupKeyword arg keywords = lookupKeyword arg keywords') :
    presentKeyword? arg keywords = presentKeyword? arg keywords' := by
  rw [presentKeyword?, presentKeyword?, h]

theorem entrypoint_congr {file : String} {subject : Expr}
    (hentrypoint : lookupKeyword "entrypoint" keywords = lookupKeyword "entrypoint" keywords')
    (hpath : lookupKeyword "path" keywords = lookupKeyword "path" keywords') :
    entrypoint file subject keywords = entrypoint file subject keywords' := by
  rw [entrypoint, entrypoint, presentKeyword?_congr hentrypoint, presentKeyword?_congr hpath]

theorem remoteSource_congr {ctx : CallContext} {span : Span}
    (h : lookupKeyword "storage" keywords = lookupKeyword "storage" keywords') :
    remoteSource ctx span keywords = remoteSource ctx span keywords' := by
  have hpresent : presentKeyword? BlockRole.remoteSource.keyword keywords =
      presentKeyword? BlockRole.remoteSource.keyword keywords' := presentKeyword?_congr h
  rw [remoteSource, remoteSource, hpresent]

theorem environment_congr {ctx : CallContext} {span : Span}
    (h : lookupKeyword "infrastructure" keywords = lookupKeyword "infrastructure" keywords') :
    environment ctx span keywords = environment ctx span keywords' := by
  have hpresent : presentKeyword? BlockRole.executionEnvironment.keyword keywords =
      presentKeyword? BlockRole.executionEnvironment.keyword keywords' := presentKeyword?_congr h
  rw [environment, environment, hpresent]

theorem carriedArguments_congr
    (hkeys : ∀ key : CallKey, lookupKeyword key.keyword keywords = lookupKeyword key.keyword keywords')
    (hformer : lookupKeyword formerJobVariables keywords = lookupKeyword formerJobVariables keywords') :
    carriedArguments args keywords = carriedArguments args keywords' := by
  ext1 key
  rw [get?_carriedArguments, get?_carriedArguments, hkeys, hformer]

end Redeploy.CallSite
