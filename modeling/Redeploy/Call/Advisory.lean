set_option autoImplicit false

/-! # Advisories

What is left to do by hand after a call has been replaced. -/

namespace Redeploy

/-- A note on one replaced call. -/
inductive Advisory where
  /-- The call names no infrastructure, so the flow is served. -/
  | serveMigration (subject : String)
  /-- The infrastructure of the call is to become a work pool. -/
  | workPoolMigration
  /-- The image of the infrastructure has been written into the call. -/
  | imageConfiguration (image : String)
  deriving DecidableEq, Repr

namespace Advisory

/-- Where to read about serving flows. -/
def servingDocs : String :=
  "https://docs.prefect.io/latest/concepts/deployments/#serving-flows-on-long-lived-infrastructure"

/-- Where to read about work pools. -/
def workPoolDocs : String :=
  "https://docs.prefect.io/latest/concepts/work-pools/"

/-- The wording of a note. -/
def text : Advisory → String
  | serveMigration subject =>
    "Your `Deployment.build_from_flow` call was migrated to a `" ++ subject ++
      ".serve()` call because your script does not use an infrastructure block. You can use " ++
      "`flow.serve` to create a deployment for your flow and poll for and execute " ++
      "scheduled runs. To learn more about serving flows, see " ++ servingDocs
  | workPoolMigration =>
    "When deploying flows with `flow.deploy`, work pools replace infrastructure " ++
      "blocks as the source of infrastructure configuration. To migrate from an " ++
      "infrastructure block to a work pool, publish your infrastructure as a work " ++
      "pool by calling the `.publish_as_work_pool()` method on your infrastructure " ++
      "block and pass the name of the new work pool to the `work_pool_name` keyword " ++
      "argument of the `.deploy()` method. To learn more about work pools, see " ++ workPoolDocs
  | imageConfiguration image =>
    "Your infrastructure block is configured with the image `" ++ image ++
      "`, so an `image=\"" ++ image ++ "\"` argument was added to the `.deploy()` call. " ++
      "`flow.deploy` builds and pushes this image by default; pass `build=False` and " ++
      "`push=False` if the image already exists in your registry."

/-- The name of the kind of note in data. -/
def kind : Advisory → String
  | serveMigration _ => "serve_migration"
  | workPoolMigration => "work_pool_migration"
  | imageConfiguration _ => "image_configuration"

end Advisory

end Redeploy
