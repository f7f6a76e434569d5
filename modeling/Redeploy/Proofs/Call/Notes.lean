import Redeploy.Proofs.Call.Blocks
import Redeploy.Proofs.Call.Readings

set_option autoImplicit false

/-! # What is noted of a call

A call without infrastructure is noted to be served. One with infrastructure is noted to need a work pool,
and, if the block has an image that work pools do not use anyway, that its image was written into the
replacement: exactly then the image is there whatever image the call names itself. The helper has to be
imported exactly if a block is named by its slug. `notes_of_classify` says all this of every call that is
classified, in terms of its keyword arguments and of what is stored of its blocks. -/

namespace Redeploy

/-- An image is one that work pools use anyway: it starts as one of the settings says. -/
def Config.IsStandardImage (config : Config) (image : String) : Prop :=
  ∃ start ∈ config.defaultImagePrefixes, start.toList <+: image.toList

theorem Config.isDefaultImage_eq_false_iff {config : Config} {image : String} :
    config.isDefaultImage image = false ↔ ¬ config.IsStandardImage image := by
  simp [isDefaultImage, IsStandardImage]

/-- A call is replaced by one of `deploy` that has an image, as a literal that is not in the script. -/
def ClassifiedCall.DeploysWith (c : ClassifiedCall) (image : String) : Prop :=
  ∃ receiver keywords span, c.replacement = .call (.member receiver "deploy" none) [] keywords span ∧
    ⟨some "image", .literal image⟩ ∈ keywords

namespace CallSite

open Redeploy.Expr (IsLastValue)

/-- What is noted of a classified call. -/
structure Noted (ctx : CallContext) (func : Expr) (args : List Expr) (keywords : List (Keyword Expr))
    (callSpan : Option Span) (span : Span) (c : ClassifiedCall) : Prop where
  /-- It runs on something if it names infrastructure. -/
  environment : c.environment.isSome = true ↔ NamesInfrastructure keywords
  /-- The image of what it runs on is that of the block. -/
  image : ∀ image, c.environment.bind (·.image) = some image ↔
    ∃ d, Describes ctx keywords .executionEnvironment d ∧ d.HasImage image
  /-- Without infrastructure it is noted to be served. -/
  serves : c.environment = none → c.advisories = [.serveMigration (label c.subject)]
  /-- With infrastructure that has no image, or one that work pools use anyway, it is noted to need a
      work pool. -/
  deploys : ∀ env, c.environment = some env →
    (∀ image, env.image = some image → ctx.config.IsStandardImage image) →
      c.advisories = [.workPoolMigration]
  /-- With infrastructure that has any other image, the image is noted too. -/
  configures : ∀ env image, c.environment = some env → env.image = some image →
    ¬ ctx.config.IsStandardImage image →
      c.advisories = [.workPoolMigration, .imageConfiguration image]
  /-- An image is noted if the replacement has it, and would have it whatever image the call named. -/
  injects : ∀ image, .imageConfiguration image ∈ c.advisories ↔ c.DeploysWith image ∧
    ∀ keywords', AgreeOn (· ≠ "image") keywords keywords' → ∃ c',
      (CallSite.mk (.call func args keywords' callSpan) span).classify ctx = .ok c' ∧
      c'.DeploysWith image
  /-- An image that the replacement has without a note is the one that the call names. -/
  names : ∀ image, c.DeploysWith image → .imageConfiguration image ∉ c.advisories →
    IsLastValue keywords "image" (.literal image)
  /-- The helper has to be imported if a block is named by its slug. -/
  imports : (∃ role slug, NamesBlock keywords role slug) →
    c.requiredImports = [ctx.config.loadHelper.requiredImport]
  /-- If none is, nothing has to be imported. -/
  importsNothing : (¬ ∃ role slug, NamesBlock keywords role slug) → c.requiredImports = []

variable {ctx : CallContext} {args : List Expr} {keywords : List (Keyword Expr)} {span : Span}
  {source : Option BlockReference} {env : Option Environment}

/-! ## The image -/

/-- The replacement has an image if the call is deployed and the image is among its arguments. -/
theorem deploysWith_assemble_iff {site : CallSite} {subject : Expr} {image : String} :
    (site.assemble ctx subject args keywords source env).DeploysWith image ↔
      env.isSome = true ∧
        (finalCarried ctx.config args keywords env).get? .image = some (.literal image) := by
  rw [← Carried.mem_toKeywords]
  cases env with
  | none =>
    simp [ClassifiedCall.DeploysWith, assemble, finalCall, Expr.methodCall, Expr.withSpan]
  | some env =>
    simp [ClassifiedCall.DeploysWith, assemble, finalCall, Expr.methodCall, Expr.withSpan, CallKey.keyword]

/-- The replacement has an image that is injected, or that the call names. -/
theorem deploysWith_iff_injected_or_named {site : CallSite} {subject : Expr} {image : String} :
    (site.assemble ctx subject args keywords source env).DeploysWith image ↔
      IsInjected ctx.config env image ∨ env.isSome = true ∧
        (¬ ∃ image, IsInjected ctx.config env image) ∧ IsLastValue keywords "image" (.literal image) := by
  rw [deploysWith_assemble_iff, get?_finalCarried_eq_some_iff, Supplies]
  constructor
  · rintro ⟨hsome, ⟨image', hinjected, heq⟩ | hnamed⟩
    · obtain ⟨rfl, -⟩ := Expr.string.inj heq
      exact .inl hinjected
    · exact .inr ⟨hsome, hnamed⟩
  · rintro (hinjected | ⟨hsome, hnamed⟩)
    · obtain ⟨e, rfl, -⟩ := Option.bind_eq_some_iff.1 hinjected.1
      exact ⟨rfl, .inl ⟨image, hinjected, rfl⟩⟩
    · exact ⟨hsome, .inr hnamed⟩

/-- Of a call that is classified, the image that it names counts for nothing but what it is replaced by. -/
theorem classify_of_agreeOn {keywords' : List (Keyword Expr)} {subject : Expr}
    (hsubject : subject? args keywords = some subject)
    (hsource : remoteSource ctx span keywords = .ok source)
    (henv : CallSite.environment ctx span keywords = .ok env)
    (h : AgreeOn (· ≠ "image") keywords keywords') (func : Expr) (callSpan : Option Span) :
    (CallSite.mk (.call func args keywords' callSpan) span).classify ctx =
      .ok (assemble ⟨.call func args keywords' callSpan, span⟩ ctx subject args keywords' source env) := by
  have hvalue := agreeOn_iff.1 h
  rw [subject?_congr (hvalue "flow" (by decide))] at hsubject
  rw [remoteSource_congr (hvalue "storage" (by decide))] at hsource
  rw [environment_congr (hvalue "infrastructure" (by decide))] at henv
  exact classify_eq_ok_iff.2 ⟨func, args, keywords', callSpan, subject, source, env, rfl, hsubject,
    hsource, henv, rfl⟩

/-- An image is injected if the replacement has it, and would have it whatever image the call named. -/
theorem isInjected_iff_deploysWith {site : CallSite} {subject : Expr} {image : String}
    (hsubject : subject? args keywords = some subject)
    (hsource : remoteSource ctx span keywords = .ok source)
    (henv : CallSite.environment ctx span keywords = .ok env) (func : Expr) (callSpan : Option Span) :
    IsInjected ctx.config env image ↔
      (site.assemble ctx subject args keywords source env).DeploysWith image ∧
      ∀ keywords', AgreeOn (· ≠ "image") keywords keywords' → ∃ c',
        (CallSite.mk (.call func args keywords' callSpan) span).classify ctx = .ok c' ∧
        c'.DeploysWith image := by
  constructor
  · intro hinjected
    refine ⟨deploysWith_iff_injected_or_named.2 (.inl hinjected), fun keywords' hagree => ?_⟩
    exact ⟨_, classify_of_agreeOn hsubject hsource henv hagree func callSpan,
      deploysWith_iff_injected_or_named.2 (.inl hinjected)⟩
  · rintro ⟨-, hevery⟩
    -- a call that names another image has to have this one all the same
    have hagree : AgreeOn (· ≠ "image") keywords (keywords ++ [⟨some "image", .name "other" none⟩]) := by
      simpa using agreeOn_replace keywords [] [⟨some "image", .name "other" none⟩] [] (by simp) (by simp)
    obtain ⟨c', hc', hdeploys⟩ := hevery _ hagree
    rw [classify_of_agreeOn hsubject hsource henv hagree] at hc'
    obtain rfl := Except.ok.inj hc'
    rcases deploysWith_iff_injected_or_named.1 hdeploys with hinjected | ⟨-, -, hnamed⟩
    · exact hinjected
    · have hlast := Expr.lookupKeyword_eq_some_iff.2 hnamed
      simp [Expr.lookupKeyword_append, Expr.lookupKeyword, Expr.literal] at hlast

/-! ## Advisories -/

theorem mem_advisories_iff {config : Config} {subject : Expr} {image : String} :
    .imageConfiguration image ∈ advisories subject env (injectedImage? config env) ↔
      IsInjected config env image := by
  rw [← injectedImage?_eq_some_iff]
  cases env with
  | none => simp [advisories, injectedImage?]
  | some env => cases injectedImage? config (some env) <;> simp [advisories, eq_comm]

theorem advisories_of_standard {config : Config} {e : Environment} (subject : Expr)
    (h : ∀ image, e.image = some image → config.IsStandardImage image) :
    advisories subject (some e) (injectedImage? config (some e)) = [.workPoolMigration] := by
  have hnone : injectedImage? config (some e) = none := by
    rw [injectedImage?_eq_none_iff]
    rintro ⟨image, himage, hdefault⟩
    exact Config.isDefaultImage_eq_false_iff.1 hdefault (h image himage)
  rw [hnone, advisories]

theorem advisories_of_not_standard {config : Config} {e : Environment} {image : String} (subject : Expr)
    (himage : e.image = some image) (h : ¬ config.IsStandardImage image) :
    advisories subject (some e) (injectedImage? config (some e)) =
      [.workPoolMigration, .imageConfiguration image] := by
  have hsome : injectedImage? config (some e) = some image :=
    injectedImage?_eq_some_iff.2 ⟨himage, Config.isDefaultImage_eq_false_iff.2 h⟩
  rw [hsome, advisories]

/-! ## The whole call -/

/-- Of every call that is classified, this is noted. -/
theorem notes_of_classify {site : CallSite} {ctx : CallContext} {c : ClassifiedCall}
    (h : site.classify ctx = .ok c) : ∃ func args keywords callSpan,
      site.call = .call func args keywords callSpan ∧
      Noted ctx func args keywords callSpan site.span c := by
  obtain ⟨func, args, keywords, callSpan, subject, source, env, hcall, hsubject, hsource, henv, rfl⟩ :=
    classify_eq_ok_iff.1 h
  refine ⟨func, args, keywords, callSpan, hcall, ?_⟩
  exact {
    environment := isSome_environment henv
    image := image_of_environment henv
    serves := by
      rintro (rfl : env = none)
      rfl
    deploys := by
      rintro e (rfl : env = some e) hstandard
      exact advisories_of_standard subject hstandard
    configures := by
      rintro e image (rfl : env = some e) himage hstandard
      exact advisories_of_not_standard subject himage hstandard
    injects := fun image => mem_advisories_iff.trans
      (isInjected_iff_deploysWith hsubject hsource henv func callSpan)
    names := by
      intro image hdeploys hunnoted
      rcases deploysWith_iff_injected_or_named.1 hdeploys with hinjected | ⟨-, -, hnamed⟩
      · exact absurd (mem_advisories_iff.2 hinjected) hunnoted
      · exact hnamed
    imports := fun hnames => if_pos ((namesSlug_iff hsource henv).2 hnames)
    importsNothing := fun hnames => if_neg (mt (namesSlug_iff hsource henv).1 hnames) }

/-- Of a call with an image of its own, the image of its block is noted and put in the place of that. -/
theorem notes_of_crowdedCall : ∃ c, crowdedCall.classify plainContext = .ok c ∧
    c.advisories = [.workPoolMigration, .imageConfiguration "a/b"] ∧ c.DeploysWith "a/b" ∧
    c.requiredImports = [] := by
  have hrun : (crowdedCall.classify plainContext).map ClassifiedCall.replacementText =
      .ok "f.deploy(name=\"daily\", tags=u, job_variables=a, image=\"a/b\")" := by
    decide +kernel
  obtain ⟨c, hclassify, -⟩ := exists_of_map_eq_ok hrun
  obtain ⟨func, args, keywords, callSpan, hcall, hnoted⟩ := notes_of_classify hclassify
  obtain ⟨-, rfl, rfl, -⟩ := Expr.call.inj hcall
  have hdescribes : Describes plainContext crowdedKeywords .executionEnvironment
      [("image", .text "a/b")] := describes_iff.2 ⟨_, rfl, .inr ⟨rfl, rfl, rfl⟩⟩
  obtain ⟨env, henv, himage⟩ := Option.bind_eq_some_iff.1
    ((hnoted.image "a/b").2 ⟨_, hdescribes, Document.image?_eq_some_iff.1 (by decide +kernel)⟩)
  have hstandard : ¬ plainContext.config.IsStandardImage "a/b" := by
    rw [← Config.isDefaultImage_eq_false_iff]
    decide +kernel
  have hadvisories := hnoted.configures env "a/b" henv himage hstandard
  refine ⟨c, hclassify, hadvisories, ((hnoted.injects "a/b").1 (by simp [hadvisories])).1, ?_⟩
  refine hnoted.importsNothing ?_
  rintro ⟨role, slug, hnames⟩
  obtain ⟨v, hpresent, hslug⟩ := namesBlock_iff.1 hnames
  cases role with
  | remoteSource =>
    have habsent : presentKeyword? BlockRole.remoteSource.keyword crowdedKeywords = none := rfl
    simp [habsent] at hpresent
  | executionEnvironment =>
    obtain rfl := Option.some.inj hpresent
    simp [BlockReference.ofExpr, BlockReference.slug?] at hslug

end CallSite

end Redeploy
