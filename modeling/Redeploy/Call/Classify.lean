import Redeploy.Block.Resolver
import Redeploy.Call.Advisory
import Redeploy.Call.Carried
import Redeploy.Call.Reference
import Redeploy.Config.Basic
import Redeploy.Expr.Render

set_option autoImplicit false

/-! # Classifying a deprecated call

The arguments of a deprecated call sorted by what they mean, and the call that replaces it. The flow
comes first; a flow whose code is fetched from a block gets a `from_source` call; a call with
infrastructure becomes `deploy`, and one without becomes `serve`. -/

namespace Redeploy

/-- A deprecated call and where it stands. -/
structure CallSite where
  /-- The call. -/
  call : Expr
  /-- Its place in the script. -/
  span : Span
  deriving Repr

/-- What classifying looks at besides the call. -/
structure CallContext where
  /-- The name of the script. -/
  file : String
  /-- What the names of the script stand for where the call is. -/
  scope : Scope
  /-- Where blocks are looked up. -/
  resolver : Resolver
  /-- The settings. -/
  config : Config

/-- A deprecated call with its arguments sorted, and its replacement. -/
structure ClassifiedCall where
  /-- The call as it is. -/
  call : Expr
  /-- Its place in the script. -/
  span : Span
  /-- The flow that is deployed. -/
  subject : Expr
  /-- Where its code is fetched from. -/
  remoteSource : Option BlockReference
  /-- What it runs on. -/
  environment : Option Environment
  /-- Where the flow is in the code. -/
  entrypoint : Entrypoint
  /-- The arguments that are taken over. -/
  carried : Carried
  /-- What is left to do by hand. -/
  advisories : List Advisory
  /-- What the replacement needs to have imported, in order. -/
  requiredImports : List RequiredImport
  /-- The call that takes its place. -/
  replacement : Expr

namespace CallSite

/-- Keywords with a meaning of their own. -/
def roleKeywords : List String :=
  ["flow", "entrypoint", "path", "storage", "infrastructure"]

/-! ## The flow -/

/-- Whether an argument is spread with a star. -/
def isSpread : Expr → Bool
  | .verbatim text _ _ => text.toList.head? == some '*'
  | _ => false

/-- The flow of a call: the `flow` argument if there is one, or else the first positional one. A
    spread argument is no flow. -/
def subject? (args : List Expr) (keywords : List (Keyword Expr)) : Option Expr :=
  ((Expr.lookupKeyword "flow" keywords).or args.head?).filter fun e => !isSpread e

/-- What a flow is called in entrypoints and notes. -/
def label (subject : Expr) : String :=
  subject.terminalName?.getD subject.render

/-! ## Arguments -/

/-- The value of a keyword argument, where `None` counts as no value. -/
def presentKeyword? (arg : String) (keywords : List (Keyword Expr)) : Option Expr :=
  (Expr.lookupKeyword arg keywords).filter fun e =>
    match e with
    | .verbatim text _ _ => text != "None"
    | _ => true

/-- The arguments that are taken over. The second positional argument is the name, unless a keyword
    argument gives it. -/
def carriedArguments (args : List Expr) (keywords : List (Keyword Expr)) : Carried :=
  let carried := Carried.collect keywords roleKeywords
  match args[1]? with
  | some arg =>
    if isSpread arg || carried.contains .name then carried else carried.insert .name arg
  | none => carried

/-- The entrypoint of the flow. -/
def entrypoint (file : String) (subject : Expr) (keywords : List (Keyword Expr)) : Entrypoint :=
  match presentKeyword? "entrypoint" keywords with
  | none => ⟨.literal (file ++ ":" ++ label subject), .default⟩
  | some explicit =>
    match (presentKeyword? "path" keywords).bind Expr.asString?, explicit.asString? with
    | some base, some path => ⟨.literal (joinPath base path), .joinedWithPath⟩
    | _, _ => ⟨explicit, .explicit⟩

/-! ## Blocks -/

/-- The document of a block that the call names by its slug. -/
def loadBlock (ctx : CallContext) (span : Span) (role : BlockRole) (slug : String) :
    Except MigrateError Document :=
  match ctx.resolver.load slug with
  | .error e => .error e
  | .ok (some d) => .ok d
  | .ok none => .error (.unknownBlock slug role ctx.file span.startLine)

/-- The block that the code of the flow is fetched from. A slug has to be known. -/
def remoteSource (ctx : CallContext) (span : Span) (keywords : List (Keyword Expr)) :
    Except MigrateError (Option BlockReference) :=
  match presentKeyword? BlockRole.remoteSource.keyword keywords with
  | none => .ok none
  | some e =>
    let reference := BlockReference.ofExpr e
    match reference.slug? with
    | none => .ok (some reference)
    | some slug => (loadBlock ctx span .remoteSource slug).map fun _ => some reference

/-- The block that the flow runs on, and its image. A slug has to be known. -/
def environment (ctx : CallContext) (span : Span) (keywords : List (Keyword Expr)) :
    Except MigrateError (Option Environment) :=
  match presentKeyword? BlockRole.executionEnvironment.keyword keywords with
  | none => .ok none
  | some e =>
    let reference := BlockReference.ofExpr e
    match reference.slug? with
    | some slug =>
      (loadBlock ctx span .executionEnvironment slug).map fun d => some ⟨reference, d.image?⟩
    | none =>
      if ctx.config.resolveBoundReferences then
        .ok (some ⟨reference, (ctx.resolver.resolveBound e ctx.scope).bind Document.image?⟩)
      else .ok (some ⟨reference, none⟩)

/-- The image that has to be written into the replacement. -/
def injectedImage? (config : Config) (environment : Option Environment) : Option String :=
  (environment.bind (·.image)).filter fun image => !config.isDefaultImage image

/-- Whether a call names a block by its slug. -/
def namesSlug (source : Option BlockReference) (environment : Option Environment) : Bool :=
  (source.bind (·.slug?)).isSome || (environment.bind (·.reference.slug?)).isSome

/-! ## The replacement -/

/-- What is left to do by hand. -/
def advisories (subject : Expr) (environment : Option Environment) (image : Option String) :
    List Advisory :=
  match environment, image with
  | none, _ => [.serveMigration (label subject)]
  | some _, none => [.workPoolMigration]
  | some _, some image => [.workPoolMigration, .imageConfiguration image]

/-- The flow, with a call that tells where its code comes from if it is fetched. -/
def receiver (helper : LoadHelper) (subject : Expr) (source : Option BlockReference)
    (entrypoint : Entrypoint) : Expr :=
  match source with
  | none => subject
  | some reference =>
    subject.methodCall "from_source"
      [⟨some "source", reference.toExpr helper⟩, ⟨some "entrypoint", entrypoint.value⟩]

/-- The call that takes the place of a deprecated one. -/
def finalCall (receiver : Expr) (environment : Option Environment) (carried : Carried) : Expr :=
  match environment with
  | none => receiver.methodCall "serve" carried.withoutDeployOnly.toKeywords
  | some _ => receiver.methodCall "deploy" carried.toKeywords

/-- Sort the arguments of a call whose flow is known. -/
def classifyWith (site : CallSite) (ctx : CallContext) (subject : Expr) (args : List Expr)
    (keywords : List (Keyword Expr)) : Except MigrateError ClassifiedCall := do
  let source ← remoteSource ctx site.span keywords
  let environment ← environment ctx site.span keywords
  let entrypoint := entrypoint ctx.file subject keywords
  let image := injectedImage? ctx.config environment
  let carried := match image with
    | some image => (carriedArguments args keywords).insert .image (.literal image)
    | none => carriedArguments args keywords
  let receiver := receiver ctx.config.loadHelper subject source entrypoint
  return {
    call := site.call
    span := site.span
    subject := subject
    remoteSource := source
    environment := environment
    entrypoint := entrypoint
    carried := carried
    advisories := advisories subject environment image
    requiredImports :=
      if namesSlug source environment then [ctx.config.loadHelper.requiredImport] else []
    replacement := (finalCall receiver environment carried).withSpan (some site.span) }

/-- The error of a call that is not of the expected form. -/
def malformed (site : CallSite) (ctx : CallContext) (reason : String) : MigrateError :=
  .malformedCall ctx.file site.span.startLine site.span.startCol reason

/-- Sort the arguments of a call and make its replacement. It fails if there is no flow to deploy, if
    a slug is not known, or if the block store fails. -/
def classify (site : CallSite) (ctx : CallContext) : Except MigrateError ClassifiedCall :=
  match site.call with
  | .call _ args keywords _ =>
    match subject? args keywords with
    | none =>
      .error (site.malformed ctx "no flow given; pass it as the first argument or as flow=")
    | some subject => site.classifyWith ctx subject args keywords
  | _ => .error (site.malformed ctx "expected a call expression")

end CallSite

namespace ClassifiedCall

/-- The name of the deployment as it is written. -/
def deploymentName? (c : ClassifiedCall) : Option String :=
  (c.carried.get? .name).map Expr.render

/-- The text that takes the place of the call. -/
def replacementText (c : ClassifiedCall) : String :=
  c.replacement.render

end ClassifiedCall

end Redeploy
