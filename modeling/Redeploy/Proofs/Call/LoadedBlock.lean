import Redeploy.Proofs.Block.LoadCall
import Redeploy.Proofs.Call.Blocks
import Redeploy.Proofs.Call.Readings

set_option autoImplicit false

/-! # Blocks that are loaded by the helper

A migrated script loads its blocks with a call of the helper, where the script before named them by their
slugs. A call that names its infrastructure in one way is classified like the call that names it in the
other: either both fail with the same error, or they get the same replacement (`loaded_block_agrees`). -/

namespace Redeploy.CallSite

variable {catalog : Catalog} {slug : String} {e : Expr}

/-! ## Calls that differ in their infrastructure -/

/-- A call site with some value for its infrastructure. -/
def withInfrastructure (func : Expr) (args : List Expr) (before behind : List (Keyword Expr))
    (callSpan : Option Span) (span : Span) (e : Expr) : CallSite :=
  ⟨.call func args (before ++ ⟨some "infrastructure", e⟩ :: behind) callSpan, span⟩

/-- Two classified calls are the same but for the reference to the block that they run on, for the call
    as it is written, and for the imports that are needed. -/
structure AgreeButReference (c c' : ClassifiedCall) : Prop where
  /-- They are at the same place. -/
  span : c.span = c'.span
  /-- They have the same flow. -/
  subject : c.subject = c'.subject
  /-- Its code comes from the same block. -/
  remoteSource : c.remoteSource = c'.remoteSource
  /-- It has the same entrypoint. -/
  entrypoint : c.entrypoint = c'.entrypoint
  /-- Either both have infrastructure or none has, and with the same image. -/
  image : c.environment.map (·.image) = c'.environment.map (·.image)
  /-- The same arguments are taken over. -/
  carried : c.carried = c'.carried
  /-- The same is left to do by hand. -/
  advisories : c.advisories = c'.advisories
  /-- They have the same replacement. -/
  replacement : c.replacement = c'.replacement

open Redeploy.Expr (lookupKeyword IsAbsent)

section

variable {keywords keywords' : List (Keyword Expr)}

/-- Two lists of keyword arguments have the same last values for all names but `infrastructure`. -/
def SameElsewhere (keywords keywords' : List (Keyword Expr)) : Prop :=
  ∀ arg, arg ≠ "infrastructure" → lookupKeyword arg keywords = lookupKeyword arg keywords'

theorem sameElsewhere_replace (before behind : List (Keyword Expr)) (e e' : Expr) :
    SameElsewhere (before ++ ⟨some "infrastructure", e⟩ :: behind)
      (before ++ ⟨some "infrastructure", e'⟩ :: behind) :=
  agreeOn_iff.1 (agreeOn_replace before [⟨_, e⟩] [⟨_, e'⟩] behind (by simp) (by simp))

/-- Either both calls have infrastructure or none has. -/
theorem isSome_congr {env env' : Option Environment} (himage : env.map (·.image) = env'.map (·.image)) :
    env.isSome = env'.isSome := by
  rw [← Option.isSome_map (f := Environment.image), himage, Option.isSome_map]

theorem injectedImage?_congr {config : Config} {env env' : Option Environment}
    (himage : env.map (·.image) = env'.map (·.image)) :
    injectedImage? config env = injectedImage? config env' := by
  have hbind : ∀ env : Option Environment, env.bind (·.image) = (env.map (·.image)).bind id :=
    fun env => by cases env <;> rfl
  rw [injectedImage?, injectedImage?, hbind env, hbind env', himage]

theorem finalCarried_congr {config : Config} {args : List Expr} {env env' : Option Environment}
    (h : SameElsewhere keywords keywords') (himage : env.map (·.image) = env'.map (·.image)) :
    finalCarried config args keywords env = finalCarried config args keywords' env' := by
  have hcarried : carriedArguments args keywords = carriedArguments args keywords' :=
    carriedArguments_congr (fun key => h _ (by cases key <;> decide)) (h _ (by decide))
  rw [finalCarried, finalCarried, injectedImage?_congr himage, hcarried]

theorem advisories_congr {subject : Expr} {env env' : Option Environment} {image : Option String}
    (h : env.isSome = env'.isSome) : advisories subject env image = advisories subject env' image := by
  cases env <;> cases env' <;> simp at h <;> cases image <;> rfl

theorem finalCall_congr {receiver : Expr} {env env' : Option Environment} {carried : Carried}
    (h : env.isSome = env'.isSome) :
    finalCall receiver env carried = finalCall receiver env' carried := by
  cases env <;> cases env' <;> simp at h <;> rfl

/-- What is put together agrees if the images do, and all that is read of the keyword arguments. -/
theorem assemble_agree {site site' : CallSite} {ctx : CallContext} {subject : Expr} {args : List Expr}
    {source : Option BlockReference} {env env' : Option Environment} (hspan : site.span = site'.span)
    (h : SameElsewhere keywords keywords') (himage : env.map (·.image) = env'.map (·.image)) :
    AgreeButReference (site.assemble ctx subject args keywords source env)
      (site'.assemble ctx subject args keywords' source env') := by
  have hsome := isSome_congr himage
  have hentrypoint : CallSite.entrypoint ctx.file subject keywords =
      CallSite.entrypoint ctx.file subject keywords' :=
    entrypoint_congr (h _ (by decide)) (h _ (by decide))
  have hcarried : finalCarried ctx.config args keywords env =
      finalCarried ctx.config args keywords' env' := finalCarried_congr h himage
  refine ⟨hspan, rfl, rfl, hentrypoint, himage, hcarried, ?_, ?_⟩
  · simp only [assemble]
    rw [injectedImage?_congr himage, advisories_congr hsome]
  · simp only [assemble]
    rw [hentrypoint, hcarried, hspan, finalCall_congr hsome]

end

/-! ## The infrastructure -/

variable {ctx : CallContext} {d : Document} {before behind : List (Keyword Expr)} {span : Span}
  {raw : Option String} {slugSpan : Option Span}

theorem presentKeyword?_infrastructure (before : List (Keyword Expr)) {v : Expr}
    (hv : ∀ atomic span, v ≠ .verbatim "None" atomic span) (hlast : IsAbsent behind "infrastructure") :
    presentKeyword? BlockRole.executionEnvironment.keyword
      (before ++ ⟨some "infrastructure", v⟩ :: behind) = some v :=
  presentKeyword?_eq_some_iff.2 ⟨⟨before, behind, rfl, hlast⟩, hv⟩

/-- What a call runs on that names a stored block by its slug. -/
theorem environment_of_slug (hresolver : ctx.resolver = catalog.resolver)
    (hstored : catalog.find? slug = some d) (hlast : IsAbsent behind "infrastructure") :
    environment ctx span (before ++ ⟨some "infrastructure", .string slug raw slugSpan⟩ :: behind) =
      .ok (some ⟨.slug slug slugSpan, d.image?⟩) := by
  have hload : loadBlock ctx span .executionEnvironment slug = .ok d := by
    rw [loadBlock_eq_ok_iff, hresolver]
    exact congrArg Except.ok hstored
  rw [environment_eq, blockOf_of_named (presentKeyword?_infrastructure before (by simp) hlast) rfl, hload]
  rfl

/-- What a call runs on that loads a stored block with the helper. -/
theorem environment_of_isLoadCall (hvalid : Config.checkHelper ctx.config.loadHelper = .ok ())
    (hhelper : catalog.helper = ctx.config.loadHelper) (hresolver : ctx.resolver = catalog.resolver)
    (hresolve : ctx.config.resolveBoundReferences = true) (hstored : catalog.find? slug = some d)
    (hknown : ctx.config.loadHelper.IsKnownIn ctx.scope) (he : IsLoadCall ctx.config.loadHelper slug e)
    (hlast : IsAbsent behind "infrastructure") :
    environment ctx span (before ++ ⟨some "infrastructure", e⟩ :: behind) =
      .ok (some ⟨.bound e, d.image?⟩) := by
  have hbound : ctx.resolver.resolveBound e ctx.scope = some d := by
    rw [← hhelper] at hknown he
    rw [hresolver, resolveBound_of_isLoadCall (hhelper ▸ Config.not_mem_name_of_checkHelper hvalid)
      hknown he,
      hstored]
  obtain ⟨raw, nameSpan, memberSpan, slugSpan, callSpan⟩ := he
  rw [environment_eq, blockOf_of_bound (presentKeyword?_infrastructure before (by simp) hlast) rfl,
    if_pos hresolve, hbound]
  rfl

/-- A later value for the infrastructure is the one that counts, whatever the one in front of it is. -/
theorem environment_of_later (hlater : ¬ IsAbsent behind "infrastructure") (e e' : Expr) :
    environment ctx span (before ++ ⟨some "infrastructure", e⟩ :: behind) =
      environment ctx span (before ++ ⟨some "infrastructure", e'⟩ :: behind) := by
  refine environment_congr ?_
  obtain ⟨later, hvalue⟩ := Option.ne_none_iff_exists'.1 (mt Expr.lookupKeyword_eq_none_iff.1 hlater)
  simp only [Expr.lookupKeyword_append, Expr.lookupKeyword_cons, hvalue, Option.some_or]

/-- Two ways to write a call are classified alike: both fail with the same error, or both get the same
    replacement. -/
def Alike (outcome outcome' : Except MigrateError ClassifiedCall) : Prop :=
  (∃ e, outcome = .error e ∧ outcome' = .error e) ∨
    ∃ c c', outcome = .ok c ∧ outcome' = .ok c' ∧ AgreeButReference c c'

theorem alike_of_environment {func : Expr} {args : List Expr} {callSpan : Option Span} {e e' : Expr}
    (henv : environment ctx span (before ++ ⟨some "infrastructure", e⟩ :: behind) =
        environment ctx span (before ++ ⟨some "infrastructure", e'⟩ :: behind) ∨
      ∃ env env', environment ctx span (before ++ ⟨some "infrastructure", e⟩ :: behind) = .ok env ∧
        environment ctx span (before ++ ⟨some "infrastructure", e'⟩ :: behind) = .ok env' ∧
        env.map (·.image) = env'.map (·.image)) :
    Alike ((withInfrastructure func args before behind callSpan span e).classify ctx)
      ((withInfrastructure func args before behind callSpan span e').classify ctx) := by
  have hsame := sameElsewhere_replace before behind e e'
  -- the flow and the block that its code comes from are read off other names, and come first
  simp only [classify, withInfrastructure, classifyWith_eq]
  rw [subject?_congr (hsame "flow" (by decide)), remoteSource_congr (hsame "storage" (by decide))]
  cases subject? args (before ++ ⟨some "infrastructure", e'⟩ :: behind) with
  | none => exact .inl ⟨_, rfl, rfl⟩
  | some subject =>
    simp only
    cases remoteSource ctx span (before ++ ⟨some "infrastructure", e'⟩ :: behind) with
    | error err => exact .inl ⟨err, rfl, rfl⟩
    | ok source =>
      rcases henv with henv | ⟨env, env', henv, henv', himage⟩
      · rw [henv]
        cases environment ctx span (before ++ ⟨some "infrastructure", e'⟩ :: behind) with
        | error err => exact .inl ⟨err, rfl, rfl⟩
        | ok env => exact .inr ⟨_, _, rfl, rfl, assemble_agree rfl hsame rfl⟩
      · rw [henv, henv']
        exact .inr ⟨_, _, rfl, rfl, assemble_agree rfl hsame himage⟩

/-! ## Both ways to name a block -/

/-- A call that names a stored block by its slug and the call that loads the block with the helper are
    classified alike, where the helper of the catalog is the one of the settings and its name does not
    stand for anything else that is imported. The image is the one that is stored, unless a later value
    for the infrastructure comes behind. -/
theorem loaded_block_agrees {func : Expr} {args : List Expr} {callSpan : Option Span}
    (hvalid : Config.checkHelper ctx.config.loadHelper = .ok ())
    (hhelper : catalog.helper = ctx.config.loadHelper) (hresolver : ctx.resolver = catalog.resolver)
    (hresolve : ctx.config.resolveBoundReferences = true) (hstored : catalog.find? slug = some d)
    (hknown : ctx.config.loadHelper.IsKnownIn ctx.scope) (he : IsLoadCall ctx.config.loadHelper slug e) :
    Alike ((withInfrastructure func args before behind callSpan span
        (.string slug raw slugSpan)).classify ctx)
      ((withInfrastructure func args before behind callSpan span e).classify ctx) ∧
    (IsAbsent behind "infrastructure" →
      ∀ c, (withInfrastructure func args before behind callSpan span e).classify ctx = .ok c →
        c.environment.bind (·.image) = d.image?) := by
  constructor
  · refine alike_of_environment ?_
    by_cases hlast : IsAbsent behind "infrastructure"
    · exact .inr ⟨_, _, environment_of_slug hresolver hstored hlast,
        environment_of_isLoadCall hvalid hhelper hresolver hresolve hstored hknown he hlast, rfl⟩
    · exact .inl (environment_of_later hlast ..)
  · intro hlast c hc
    obtain ⟨func', args', keywords, callSpan', -, -, env, hcall, -, -, henv, rfl⟩ :=
      classify_eq_ok_iff.1 hc
    obtain ⟨-, -, rfl, -⟩ := Expr.call.inj hcall
    rw [environment_of_isLoadCall hvalid hhelper hresolver hresolve hstored hknown he hlast] at henv
    obtain rfl := Except.ok.inj henv
    rfl

/-- A catalog with one block. -/
def dockerCatalog : Catalog :=
  Catalog.empty.insert "docker-container/x" [("image", .text "a/b")]

/-- In a script that imports the helper, with this catalog. -/
def importedContext : CallContext where
  file := "flow.py"
  scope := Scope.empty.recordImport ⟨"prefect.blocks.core", some "Block", none⟩
  resolver := dockerCatalog.resolver
  config := .standard

/-- The deployment of a flow on some infrastructure, and nothing else. -/
def deployedOn (e : Expr) : CallSite :=
  withInfrastructure (.name "g" none) [.name "f" none] [] [] none .zero e

/-- The method of the helper is called `load`, as the methods are that load the blocks of one class; both
    ways to name the block give its image. -/
theorem loaded_block_agrees_imported : ∃ c c',
    (deployedOn (.literal "docker-container/x")).classify importedContext = .ok c ∧
    (deployedOn (LoadHelper.standard.loadCall "docker-container/x")).classify importedContext = .ok c' ∧
    AgreeButReference c c' ∧ c'.replacementText = "f.deploy(image=\"a/b\")" ∧
    c'.environment.bind (·.image) = some "a/b" := by
  have hrun : ((deployedOn (LoadHelper.standard.loadCall "docker-container/x")).classify
      importedContext).map ClassifiedCall.replacementText = .ok "f.deploy(image=\"a/b\")" := by
    decide +kernel
  obtain ⟨c', hc', htext⟩ := exists_of_map_eq_ok hrun
  have hhelper : dockerCatalog.helper = importedContext.config.loadHelper := rfl
  have hstored : dockerCatalog.find? "docker-container/x" = some [("image", .text "a/b")] := rfl
  have hload : IsLoadCall importedContext.config.loadHelper "docker-container/x"
      (LoadHelper.standard.loadCall "docker-container/x") := isLoadCall_toExpr _ _ none
  have hknown : importedContext.config.loadHelper.IsKnownIn importedContext.scope := by
    intro i hi
    obtain rfl : ⟨"prefect.blocks.core", some "Block", none⟩ = i := Option.some.inj hi
    rfl
  have halike : Alike ((deployedOn (.literal "docker-container/x")).classify importedContext)
      ((deployedOn (LoadHelper.standard.loadCall "docker-container/x")).classify importedContext) ∧ _ :=
    loaded_block_agrees (by decide +kernel) hhelper rfl rfl hstored hknown hload
  rcases halike.1 with ⟨err, -, herr⟩ | ⟨c, c'', hc, hc'', hagree⟩
  · rw [hc'] at herr
    simp at herr
  · obtain rfl : c' = c'' := Except.ok.inj (hc'.symm.trans hc'')
    exact ⟨c, c', hc, hc', hagree, htext, halike.2 (by simp [IsAbsent]) c' hc'⟩

end Redeploy.CallSite
