import Redeploy.Block.Catalog
import Redeploy.Proofs.Call.Assembled
import Redeploy.Proofs.Call.Keywords
import Redeploy.Proofs.Fallible

set_option autoImplicit false

/-! # The call that ends a replacement

A replacement ends in a call of `deploy` or `serve` without positional arguments. Which of the two it is,
is told by the last value of `infrastructure`; its keyword arguments are told key by key, from the last
values that the deprecated call has for some names, from its second positional argument and from the
image of its block (`replacement_of_classify`). -/

namespace Redeploy.CallSite

open Redeploy.Expr (IsLastValue IsAbsent)

/-- A call names infrastructure: it has a last value for it, which is not the text `None`. -/
def NamesInfrastructure (keywords : List (Keyword Expr)) : Prop :=
  ∃ v, IsLastValue keywords "infrastructure" v ∧ ∀ atomic span, v ≠ .verbatim "None" atomic span

/-- An image is to be written into a replacement: it is that of the block, and it has to be named. -/
def IsInjected (config : Config) (environment : Option Environment) (image : String) : Prop :=
  environment.bind (·.image) = some image ∧ config.isDefaultImage image = false

/-- An argument is spread with a star: it is kept as a text that begins with one. -/
def IsStarred (e : Expr) : Prop :=
  ∃ text atomic span, e = .verbatim text atomic span ∧ text.toList.head? = some '*'

/-- A value is what a deprecated call supplies for a key of its replacement. -/
def Supplies (config : Config) (args : List Expr) (keywords : List (Keyword Expr))
    (environment : Option Environment) : CallKey → Expr → Prop
  | .jobVariables, v => IsLastValue keywords "infra_overrides" v ∨
      IsAbsent keywords "infra_overrides" ∧ IsLastValue keywords "job_variables" v
  | .name, v => IsLastValue keywords "name" v ∨
      IsAbsent keywords "name" ∧ args[1]? = some v ∧ ¬ IsStarred v
  | .image, v => (∃ image, IsInjected config environment image ∧ v = .literal image) ∨
      (¬ ∃ image, IsInjected config environment image) ∧ IsLastValue keywords "image" v
  | key, v => IsLastValue keywords key.keyword v

variable {config : Config} {args : List Expr} {keywords : List (Keyword Expr)}
  {environment : Option Environment} {key : CallKey} {v : Expr}

/-! ## Arguments -/

theorem isSpread_eq_true_iff : isSpread v = true ↔ IsStarred v := by
  constructor
  · intro h
    cases v with
    | verbatim text atomic span => exact ⟨text, atomic, span, rfl, beq_iff_eq.1 h⟩
    | _ => simp [isSpread] at h
  · rintro ⟨text, atomic, span, rfl, hhead⟩
    exact beq_iff_eq.2 hhead

theorem isSpread_eq_false_iff : isSpread v = false ↔ ¬ IsStarred v := by
  rw [← isSpread_eq_true_iff, Bool.not_eq_true]

/-- No key is a keyword with a meaning of its own, nor is its former name one. -/
theorem keyword_not_mem_roleKeywords (key : CallKey) :
    key.keyword ∉ roleKeywords ∧ formerJobVariables ∉ roleKeywords := by
  cases key <;> decide

/-- The value of a key among the arguments that are taken over. -/
theorem get?_carriedArguments (args : List Expr) (keywords : List (Keyword Expr)) (key : CallKey) :
    (carriedArguments args keywords).get? key =
      ((if key = .jobVariables then Expr.lookupKeyword formerJobVariables keywords else none).or
        (Expr.lookupKeyword key.keyword keywords)).or
          (if key = .name then args[1]?.filter fun e => !isSpread e else none) := by
  have hcollect : ∀ key, (Carried.collect keywords roleKeywords).get? key =
      (if key = .jobVariables then Expr.lookupKeyword formerJobVariables keywords else none).or
        (Expr.lookupKeyword key.keyword keywords) := by
    -- the names that are skipped are no keys, so skipping them takes nothing away
    intro key
    obtain ⟨hkey, hformer⟩ := keyword_not_mem_roleKeywords key
    rw [Carried.get?_collect, Carried.considered?_of_not_mem hkey,
      Carried.considered?_of_not_mem hformer]
  rw [← hcollect key]
  unfold carriedArguments
  generalize Carried.collect keywords roleKeywords = carried
  cases args[1]? with
  | none => simp
  | some arg =>
    cases hspread : isSpread arg with
    | true => simp [hspread, Option.filter_some]
    | false =>
      simp only [hspread, Bool.false_or, Option.filter_some, Bool.not_false, if_true,
        Carried.contains]
      -- the second positional argument is looked at for the name alone, and only if it has no value
      by_cases hkey : key = .name
      · subst hkey
        cases hname : carried.get? .name with
        | none => simp [Carried.get?_insert]
        | some name => simp [hname]
      · rw [if_neg hkey, Option.or_none]
        split
        · rfl
        · rw [Carried.get?_insert, if_neg hkey]

/-- The value of a key among the arguments of the replacement. -/
theorem get?_finalCarried (config : Config) (args : List Expr) (keywords : List (Keyword Expr))
    (environment : Option Environment) (key : CallKey) :
    (finalCarried config args keywords environment).get? key =
      (if key = .image then (injectedImage? config environment).map Expr.literal else none).or
        ((carriedArguments args keywords).get? key) := by
  unfold finalCarried
  cases injectedImage? config environment with
  | none => simp
  | some image =>
    rw [Carried.get?_insert]
    split <;> rfl

/-! ## What is supplied -/

theorem injectedImage?_eq_some_iff {image : String} :
    injectedImage? config environment = some image ↔ IsInjected config environment image := by
  rw [injectedImage?, Option.filter_eq_some_iff, IsInjected]
  simp

theorem injectedImage?_eq_none_iff :
    injectedImage? config environment = none ↔ ¬ ∃ image, IsInjected config environment image := by
  simp only [← injectedImage?_eq_some_iff, ← Option.isSome_iff_exists, Option.not_isSome_iff_eq_none]

theorem or_eq_some_iff_of_keyword {arg : String} {x : Option Expr} :
    (Expr.lookupKeyword arg keywords).or x = some v ↔
      IsLastValue keywords arg v ∨ IsAbsent keywords arg ∧ x = some v := by
  rw [Option.or_eq_some_iff, Expr.lookupKeyword_eq_some_iff, Expr.lookupKeyword_eq_none_iff]

/-- The arguments of the replacement are what the deprecated call supplies. -/
theorem get?_finalCarried_eq_some_iff : (finalCarried config args keywords environment).get? key =
    some v ↔ Supplies config args keywords environment key v := by
  rw [get?_finalCarried, get?_carriedArguments]
  cases key
  case jobVariables =>
    simp only [reduceCtorEq, if_false, if_true, Option.none_or, Option.or_none, Supplies]
    rw [or_eq_some_iff_of_keyword, Expr.lookupKeyword_eq_some_iff]
    rfl
  case name =>
    simp only [reduceCtorEq, if_false, if_true, Option.none_or, Supplies]
    rw [or_eq_some_iff_of_keyword, Option.filter_eq_some_iff]
    simp [CallKey.keyword, isSpread_eq_false_iff]
  case image =>
    simp only [reduceCtorEq, if_false, if_true, Option.none_or, Option.or_none, Supplies]
    rw [Option.or_eq_some_iff, Option.map_eq_some_iff, Option.map_eq_none_iff,
      injectedImage?_eq_none_iff, Expr.lookupKeyword_eq_some_iff]
    simp only [injectedImage?_eq_some_iff, eq_comm (a := v)]
    rfl
  all_goals
    simp only [reduceCtorEq, if_false, Option.none_or, Option.or_none, Supplies]
    exact Expr.lookupKeyword_eq_some_iff

/-! ## Infrastructure -/

theorem presentKeyword?_eq_some_iff {arg : String} : presentKeyword? arg keywords = some v ↔
    IsLastValue keywords arg v ∧ ∀ atomic span, v ≠ .verbatim "None" atomic span := by
  rw [presentKeyword?, Option.filter_eq_some_iff, Expr.lookupKeyword_eq_some_iff]
  refine and_congr_right fun _ => ?_
  cases v <;> simp

theorem isSome_environment {ctx : CallContext} {span : Span} {env : Option Environment}
    (h : CallSite.environment ctx span keywords = .ok env) :
    env.isSome = true ↔ NamesInfrastructure keywords := by
  have hnames : NamesInfrastructure keywords ↔
      (presentKeyword? BlockRole.executionEnvironment.keyword keywords).isSome = true := by
    rw [Option.isSome_iff_exists]
    exact exists_congr fun v => presentKeyword?_eq_some_iff.symm
  rw [hnames]
  unfold CallSite.environment at h
  split at h
  · next hnone =>
    rw [hnone, ← Except.ok.inj h]
    rfl
  · next e hsome =>
    rw [hsome]
    simp only at h
    split at h
    · obtain ⟨d, -, rfl⟩ := exists_of_map_eq_ok h
      rfl
    · split at h <;> rw [← Except.ok.inj h] <;> rfl

/-! ## The whole call -/

/-- The method of the call that ends a replacement, and its keyword arguments. -/
structure FinalCall (config : Config) (environment : Option Environment) (args : List Expr)
    (keywords : List (Keyword Expr)) (method : String) (entries : List (CallKey × Expr)) : Prop where
  /-- A call with infrastructure is deployed. -/
  deploys : NamesInfrastructure keywords → method = "deploy"
  /-- A call without is served. -/
  serves : ¬ NamesInfrastructure keywords → method = "serve"
  /-- The keys are in their order, each once. -/
  order : entries.Pairwise fun e e' => e.1.position < e'.1.position
  /-- A key has the value that is supplied for it; the keys of a work pool and of its jobs need
      infrastructure. -/
  mem_iff : ∀ key v, (key, v) ∈ entries ↔ Supplies config args keywords environment key v ∧
    (key ∈ [.workPoolName, .workQueueName, .jobVariables, .image] → NamesInfrastructure keywords)

theorem isDeployOnly_eq_true_iff :
    key.isDeployOnly = true ↔ key ∈ [.workPoolName, .workQueueName, .jobVariables, .image] := by
  cases key <;> decide

theorem finalCall_of_environment {ctx : CallContext} {span : Span} {env : Option Environment}
    (h : CallSite.environment ctx span keywords = .ok env) (args : List Expr) (receiver : Expr) :
    ∃ method entries, finalCall receiver env (finalCarried ctx.config args keywords env) =
        receiver.methodCall method (entries.map fun e => ⟨some e.1.keyword, e.2⟩) ∧
      FinalCall ctx.config env args keywords method entries := by
  have hnames := isSome_environment h
  cases env with
  | none =>
    have hnot : ¬ NamesInfrastructure keywords := fun hnames' => by simpa using hnames.2 hnames'
    refine ⟨"serve", (finalCarried ctx.config args keywords none).withoutDeployOnly.entries, rfl,
      fun hnames' => absurd hnames' hnot, fun _ => rfl, Carried.pairwise_entries _, fun key v => ?_⟩
    rw [Carried.mem_entries, Carried.get?_withoutDeployOnly, ← get?_finalCarried_eq_some_iff,
      ← isDeployOnly_eq_true_iff]
    cases key.isDeployOnly <;> simp [hnot]
  | some env =>
    have hnames' : NamesInfrastructure keywords := hnames.1 rfl
    refine ⟨"deploy", (finalCarried ctx.config args keywords (some env)).entries, rfl,
      fun _ => rfl, fun hnot => absurd hnames' hnot, Carried.pairwise_entries _, fun key v => ?_⟩
    rw [Carried.mem_entries, get?_finalCarried_eq_some_iff]
    simp [hnames']

/-- A replacement ends in a call of `deploy` or `serve` that has keyword arguments only, and takes up the
    span of the deprecated call. -/
theorem replacement_of_classify {site : CallSite} {ctx : CallContext} {c : ClassifiedCall}
    (h : site.classify ctx = .ok c) : ∃ func args keywords span receiver method entries,
      site.call = .call func args keywords span ∧
      c.replacement = .call (.member receiver method none) []
        (entries.map fun e : CallKey × Expr => ⟨some e.1.keyword, e.2⟩) (some site.span) ∧
      FinalCall ctx.config c.environment args keywords method entries := by
  obtain ⟨func, args, keywords, span, subject, source, env, hcall, -, -, henv, rfl⟩ :=
    classify_eq_ok_iff.1 h
  obtain ⟨method, entries, heq, hfinal⟩ := finalCall_of_environment henv args
    (receiver ctx.config.loadHelper subject source (entrypoint ctx.file subject keywords))
  exact ⟨func, args, keywords, span, _, method, entries, hcall,
    congrArg (Expr.withSpan (some site.span)) heq, hfinal⟩

/-- Keyword arguments with a name that is given twice, the former name of a key, and a block with an
    image in front of another image. -/
def crowdedKeywords : List (Keyword Expr) :=
  [⟨some "infra_overrides", .name "a" none⟩, ⟨some "tags", .name "t" none⟩,
    ⟨some "infrastructure",
      .call (.name "DockerContainer" none) [] [⟨some "image", .literal "a/b"⟩] none⟩,
    ⟨some "job_variables", .name "b" none⟩, ⟨some "tags", .name "u" none⟩,
    ⟨some "image", .literal "c/d"⟩, ⟨some "timestamp", .name "now" none⟩]

/-- A call with these keyword arguments and a second positional one. -/
def crowdedCall : CallSite where
  call := .call (.member (.name "Deployment" none) "build_from_flow" none)
    [.name "f" none, .literal "daily"] crowdedKeywords none
  span := .zero

/-- Where the call stands, with a catalog that has no blocks. -/
def plainContext : CallContext := ⟨"flow.py", .empty, Catalog.empty.resolver, .standard⟩

/-- The last values are taken over in the order of the keys, the overrides as variables of jobs, and the
    image of the block in front of the image that is given. -/
theorem replacement_of_crowdedCall : ∃ c receiver method, ∃ entries : List (CallKey × Expr),
    crowdedCall.classify plainContext = .ok c ∧
    c.replacementText = "f.deploy(name=\"daily\", tags=u, job_variables=a, image=\"a/b\")" ∧
    c.replacement = .call (.member receiver method none) []
      (entries.map fun e => ⟨some e.1.keyword, e.2⟩) (some crowdedCall.span) ∧
    method = "deploy" ∧ entries.Pairwise (fun e e' => e.1.position < e'.1.position) ∧
    (CallKey.jobVariables, Expr.name "a" none) ∈ entries := by
  have hrun : (crowdedCall.classify plainContext).map ClassifiedCall.replacementText =
      .ok "f.deploy(name=\"daily\", tags=u, job_variables=a, image=\"a/b\")" := by
    decide +kernel
  obtain ⟨c, hclassify, htext⟩ := exists_of_map_eq_ok hrun
  obtain ⟨func, args, keywords, span, receiver, method, entries, hcall, hreplacement, hfinal⟩ :=
    replacement_of_classify hclassify
  obtain ⟨-, rfl, rfl, -⟩ := Expr.call.inj hcall
  have hnames : NamesInfrastructure crowdedKeywords := ⟨_, presentKeyword?_eq_some_iff.1 rfl⟩
  have hvariables : IsLastValue crowdedKeywords "infra_overrides" (.name "a" none) :=
    Expr.lookupKeyword_eq_some_iff.1 rfl
  exact ⟨c, receiver, method, entries, hclassify, htext, hreplacement, hfinal.deploys hnames,
    hfinal.order, (hfinal.mem_iff .jobVariables _).2 ⟨.inl hvariables, fun _ => hnames⟩⟩

end Redeploy.CallSite
