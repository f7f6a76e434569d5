import Redeploy.Call.Classify

set_option autoImplicit false

/-! # How a call is classified

Classifying a call looks for its flow, for the block that the code comes from and for the block that it
runs on, in this order, and fails where one of them cannot be had. With these three everything else
follows without failing: `assemble` puts it together, and `classify_eq_ok_iff` says that nothing else is
ever the outcome. -/

namespace Redeploy.CallSite

/-- What a replacement takes over: the arguments of the call, and the image that has to be written into
    it. -/
def finalCarried (config : Config) (args : List Expr) (keywords : List (Keyword Expr))
    (environment : Option Environment) : Carried :=
  match injectedImage? config environment with
  | some image => (carriedArguments args keywords).insert .image (.literal image)
  | none => carriedArguments args keywords

/-- A classified call, from its flow and the blocks that it refers to. -/
def assemble (site : CallSite) (ctx : CallContext) (subject : Expr) (args : List Expr)
    (keywords : List (Keyword Expr)) (source : Option BlockReference)
    (environment : Option Environment) : ClassifiedCall where
  call := site.call
  span := site.span
  subject := subject
  remoteSource := source
  environment := environment
  entrypoint := entrypoint ctx.file subject keywords
  carried := finalCarried ctx.config args keywords environment
  advisories := advisories subject environment (injectedImage? ctx.config environment)
  requiredImports :=
    if namesSlug source environment then [ctx.config.loadHelper.requiredImport] else []
  replacement :=
    (finalCall (receiver ctx.config.loadHelper subject source (entrypoint ctx.file subject keywords))
      environment (finalCarried ctx.config args keywords environment)).withSpan (some site.span)

variable {site : CallSite} {ctx : CallContext}

theorem classifyWith_eq (subject : Expr) (args : List Expr) (keywords : List (Keyword Expr)) :
    site.classifyWith ctx subject args keywords =
      (remoteSource ctx site.span keywords).bind fun source =>
        (environment ctx site.span keywords).map
          (site.assemble ctx subject args keywords source) := by
  unfold classifyWith
  cases remoteSource ctx site.span keywords with
  | error e => rfl
  | ok source =>
    cases environment ctx site.span keywords <;> rfl

/-- A call that is classified has a flow, and the blocks that it refers to can be had. -/
theorem classify_eq_ok_iff {c : ClassifiedCall} : site.classify ctx = .ok c ↔
    ∃ func args keywords span subject source env, site.call = .call func args keywords span ∧
      subject? args keywords = some subject ∧
      remoteSource ctx site.span keywords = .ok source ∧
      environment ctx site.span keywords = .ok env ∧
      site.assemble ctx subject args keywords source env = c := by
  constructor
  · intro h
    unfold classify at h
    split at h
    · next func args keywords span hcall =>
      split at h
      · simp at h
      · next subject hsubject =>
        rw [classifyWith_eq] at h
        cases hsource : remoteSource ctx site.span keywords with
        | error e => simp [hsource, Except.bind] at h
        | ok source =>
          cases henv : environment ctx site.span keywords with
          | error e => simp [hsource, henv, Except.bind, Except.map] at h
          | ok env =>
            simp only [hsource, henv, Except.bind, Except.map, Except.ok.injEq] at h
            exact ⟨func, args, keywords, span, subject, source, env, hcall, hsubject, hsource, henv, h⟩
    · simp at h
  · rintro ⟨func, args, keywords, span, subject, source, env, hcall, hsubject, hsource, henv, rfl⟩
    simp only [classify, hcall, hsubject, classifyWith_eq, hsource, henv, Except.bind, Except.map]

end Redeploy.CallSite
