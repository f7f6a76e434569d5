import Redeploy.Proofs.Call.Blocks

set_option autoImplicit false

/-! # Calls that cannot be classified

A call cannot be classified if it has no flow, or if a block that it names by a slug cannot be had. Of
several such reasons the flow is told first, then the block that the code comes from, then the block
that the flow runs on; without any the call is classified (`failures_of_classify`). The block store is
asked for nothing but slugs that the call names. -/

namespace Redeploy

/-- A context with another block store, which knows the same of the expressions in a script. -/
def CallContext.withLoad (ctx : CallContext) (load : String → Except MigrateError (Option Document)) :
    CallContext :=
  { ctx with resolver := { ctx.resolver with load := load } }

namespace CallSite

open Redeploy.Expr (IsLastValue IsAbsent)

/-- The flow of a call: the last value of `flow`, or without one the first positional argument. An
    argument that is spread with a star is no flow. -/
def IsSubject (args : List Expr) (keywords : List (Keyword Expr)) (subject : Expr) : Prop :=
  (IsLastValue keywords "flow" subject ∨ IsAbsent keywords "flow" ∧ args.head? = some subject) ∧
    ¬ IsStarred subject

/-- Why a call cannot be classified. -/
inductive Fails (site : CallSite) (ctx : CallContext) : MigrateError → Prop where
  /-- It is no call. -/
  | notCall (h : ∀ func args keywords span, site.call ≠ .call func args keywords span) :
    Fails site ctx (.malformedCall ctx.file site.span.startLine site.span.startCol
      "expected a call expression")
  /-- It has no flow. -/
  | noSubject {func : Expr} {args : List Expr} {keywords : List (Keyword Expr)} {span : Option Span}
    (hcall : site.call = .call func args keywords span)
    (h : ¬ ∃ subject, IsSubject args keywords subject) :
    Fails site ctx (.malformedCall ctx.file site.span.startLine site.span.startCol
      "no flow given; pass it as the first argument or as flow=")
  /-- It has a flow, and the block that the code comes from cannot be had. -/
  | source {func : Expr} {args : List Expr} {keywords : List (Keyword Expr)} {span : Option Span}
    {e : MigrateError} (hcall : site.call = .call func args keywords span)
    (hsubject : ∃ subject, IsSubject args keywords subject)
    (h : LacksBlock ctx site.span keywords .remoteSource e) : Fails site ctx e
  /-- It has a flow, nothing is wrong with the block that the code comes from, and the block that the
      flow runs on cannot be had. -/
  | environment {func : Expr} {args : List Expr} {keywords : List (Keyword Expr)} {span : Option Span}
    {e : MigrateError} (hcall : site.call = .call func args keywords span)
    (hsubject : ∃ subject, IsSubject args keywords subject)
    (hsource : ¬ ∃ e, LacksBlock ctx site.span keywords .remoteSource e)
    (h : LacksBlock ctx site.span keywords .executionEnvironment e) : Fails site ctx e

variable {site : CallSite} {ctx : CallContext} {span : Span} {args : List Expr}
  {keywords : List (Keyword Expr)} {role : BlockRole} {slug : String} {e : MigrateError}

/-! ## The flow -/

theorem subject?_eq_some_iff {subject : Expr} :
    subject? args keywords = some subject ↔ IsSubject args keywords subject := by
  rw [subject?, Option.filter_eq_some_iff, or_eq_some_iff_of_keyword, IsSubject,
    ← isSpread_eq_false_iff]
  simp

theorem subject?_eq_none_iff :
    subject? args keywords = none ↔ ¬ ∃ subject, IsSubject args keywords subject := by
  simp only [← subject?_eq_some_iff, ← Option.isSome_iff_exists, Option.not_isSome_iff_eq_none]

/-! ## The block store -/

section

variable {load : String → Except MigrateError (Option Document)}

theorem loadBlock_withLoad (h : load slug = ctx.resolver.load slug) :
    loadBlock (ctx.withLoad load) span role slug = loadBlock ctx span role slug := by
  simp only [loadBlock, CallContext.withLoad, h]

theorem blockOf_withLoad
    (h : ∀ slug, NamesBlock keywords role slug → load slug = ctx.resolver.load slug) :
    blockOf (ctx.withLoad load) span keywords role = blockOf ctx span keywords role := by
  cases hpresent : presentKeyword? role.keyword keywords with
  | none => rw [blockOf_of_absent hpresent, blockOf_of_absent hpresent]
  | some v =>
    cases hslug : (BlockReference.ofExpr v).slug? with
    | none =>
      rw [blockOf_of_bound hpresent hslug, blockOf_of_bound hpresent hslug]
      rfl
    | some slug =>
      rw [blockOf_of_named hpresent hslug, blockOf_of_named hpresent hslug,
        loadBlock_withLoad (h slug (namesBlock_iff.2 ⟨v, hpresent, hslug⟩))]

/-- A call is classified alike by two block stores that agree on the slugs that it names. -/
theorem classify_withLoad {func : Expr} {callSpan : Option Span}
    (h : ∀ role slug, NamesBlock keywords role slug → load slug = ctx.resolver.load slug) :
    (CallSite.mk (.call func args keywords callSpan) span).classify (ctx.withLoad load) =
      (CallSite.mk (.call func args keywords callSpan) span).classify ctx := by
  simp only [classify, classifyWith_eq, remoteSource_eq, environment_eq,
    blockOf_withLoad (h .remoteSource), blockOf_withLoad (h .executionEnvironment)]
  rfl

end

/-! ## Classifying -/

/-- Classifying a call fails for the first reason there is. -/
theorem classify_eq_error_iff : site.classify ctx = .error e ↔ Fails site ctx e := by
  constructor
  · intro h
    unfold classify at h
    split at h
    · next func args keywords span hcall =>
      split at h
      · next hnone => exact Except.error.inj h ▸ .noSubject hcall (subject?_eq_none_iff.1 hnone)
      · next subject hsome =>
        have hsubject := Exists.intro subject (subject?_eq_some_iff.1 hsome)
        rw [classifyWith_eq] at h
        cases hsource : remoteSource ctx site.span keywords with
        | error e' =>
          rw [hsource] at h
          obtain rfl : e' = e := Except.error.inj h
          exact .source hcall hsubject (remoteSource_eq_error_iff.1 hsource)
        | ok source =>
          have hfine : ¬ ∃ e, LacksBlock ctx site.span keywords .remoteSource e := by
            rintro ⟨e', hlacks⟩
            rw [remoteSource_eq_error_iff.2 hlacks] at hsource
            simp at hsource
          rw [hsource] at h
          exact .environment hcall hsubject hfine (environment_eq_error_iff.1 (map_eq_error_iff.1 h))
    · next hcall => exact Except.error.inj h ▸ .notCall hcall
  · intro h
    cases h with
    | notCall h =>
      unfold classify
      split
      · next hcall => exact absurd hcall (h _ _ _ _)
      · rfl
    | noSubject hcall h => simp only [classify, hcall, subject?_eq_none_iff.2 h, malformed]
    | source hcall hsubject h =>
      obtain ⟨subject, hsubject⟩ := hsubject
      simp only [classify, hcall, subject?_eq_some_iff.2 hsubject, classifyWith_eq,
        remoteSource_eq_error_iff.2 h, Except.bind]
    | environment hcall hsubject hsource h =>
      obtain ⟨subject, hsubject⟩ := hsubject
      simp only [classify, hcall, subject?_eq_some_iff.2 hsubject, classifyWith_eq]
      cases hfine : remoteSource ctx site.span _ with
      | error e' => exact absurd ⟨e', remoteSource_eq_error_iff.1 hfine⟩ hsource
      | ok source => exact map_eq_error_iff.2 (environment_eq_error_iff.2 h)

/-- Classifying a call fails for the first of the reasons that there are, and succeeds if there is none.
    What the block store answers counts for nothing but the slugs that the call names, so a block that
    is not named by a string literal never makes it fail. -/
theorem failures_of_classify (site : CallSite) (ctx : CallContext) :
    (∀ e, site.classify ctx = .error e ↔ Fails site ctx e) ∧
    ((∃ c, site.classify ctx = .ok c) ↔ ¬ ∃ e, Fails site ctx e) ∧
    ∀ func args keywords callSpan, site.call = .call func args keywords callSpan →
      ∀ load : String → Except MigrateError (Option Document),
        (∀ role slug, NamesBlock keywords role slug → load slug = ctx.resolver.load slug) →
          site.classify (ctx.withLoad load) = site.classify ctx := by
  refine ⟨fun e => classify_eq_error_iff, ?_, ?_⟩
  · simp only [← classify_eq_error_iff]
    cases site.classify ctx <;> simp
  · intro func args keywords callSpan hcall load h
    obtain ⟨call, span⟩ := site
    obtain rfl : call = _ := hcall
    exact classify_withLoad h

/-- Keyword arguments that name two blocks, neither of which is stored; the first value for the
    infrastructure does not count. -/
def unknownBlocks : List (Keyword Expr) :=
  [⟨some "infrastructure", .name "infra" none⟩, ⟨some "infrastructure", .literal "docker/gone"⟩,
    ⟨some "storage", .literal "s3/gone"⟩]

/-- A call with these keyword arguments. -/
def unknownBlocksCall : CallSite := ⟨.call (.name "g" none) [.name "f" none] unknownBlocks none, .zero⟩

/-- The block that the code comes from is told, also by a block store that fails for all other slugs. -/
theorem failures_of_unknownBlocks :
    unknownBlocksCall.classify plainContext = .error (.unknownBlock "s3/gone" .remoteSource "flow.py" 0) ∧
    ∀ load : String → Except MigrateError (Option Document),
      (∀ slug ∈ ["s3/gone", "docker/gone"], load slug = .ok none) →
        unknownBlocksCall.classify (plainContext.withLoad load) =
          .error (.unknownBlock "s3/gone" .remoteSource "flow.py" 0) := by
  obtain ⟨hfails, -, hload⟩ := failures_of_classify unknownBlocksCall plainContext
  have hsubject : IsSubject [.name "f" none] unknownBlocks (.name "f" none) :=
    subject?_eq_some_iff.1 rfl
  have hnames : NamesBlock unknownBlocks .remoteSource "s3/gone" := namesBlock_iff.2 ⟨_, rfl, rfl⟩
  have herror := (hfails _).2 (.source rfl ⟨_, hsubject⟩ ⟨_, hnames, .unknown rfl⟩)
  refine ⟨herror, fun load h => (hload _ _ _ _ rfl load ?_).trans herror⟩
  rintro role slug ⟨raw, span, hlast⟩
  have hvalue := Expr.lookupKeyword_eq_some_iff.2 hlast
  cases role with
  | remoteSource =>
    obtain ⟨rfl, -⟩ := Expr.string.inj (Option.some.inj hvalue)
    exact h _ (by decide)
  | executionEnvironment =>
    obtain ⟨rfl, -⟩ := Expr.string.inj (Option.some.inj hvalue)
    exact h _ (by decide)

end CallSite

end Redeploy
