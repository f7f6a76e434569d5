set_option autoImplicit false

/-! # Keywords of a deployment

The keyword arguments of a deprecated call that its replacement takes over, in the order in which the
replacement lists them, and the ones with a meaning of their own. -/

namespace Redeploy

/-- A keyword that is taken over as it is written. -/
inductive CallKey where
  /-- The name of the deployment. -/
  | name
  /-- Its description. -/
  | description
  /-- Its version. -/
  | version
  /-- Its tags. -/
  | tags
  /-- When it runs. -/
  | schedule
  /-- The parameters of its runs. -/
  | parameters
  /-- Whether the schedule is on. -/
  | isScheduleActive
  /-- The work pool that it runs in. -/
  | workPoolName
  /-- The queue of the work pool. -/
  | workQueueName
  /-- Settings of its jobs. -/
  | jobVariables
  /-- What sets off a run. -/
  | triggers
  /-- The container image. -/
  | image
  deriving DecidableEq, Repr

namespace CallKey

/-- Every key, in the order in which a replacement lists them. -/
def all : List CallKey :=
  [name, description, version, tags, schedule, parameters, isScheduleActive, workPoolName,
    workQueueName, jobVariables, triggers, image]

/-- The key as it is written. -/
def keyword : CallKey → String
  | name => "name"
  | description => "description"
  | version => "version"
  | tags => "tags"
  | schedule => "schedule"
  | parameters => "parameters"
  | isScheduleActive => "is_schedule_active"
  | workPoolName => "work_pool_name"
  | workQueueName => "work_queue_name"
  | jobVariables => "job_variables"
  | triggers => "triggers"
  | image => "image"

/-- The key that is written so. -/
def ofKeyword? (keyword : String) : Option CallKey :=
  all.find? fun k => k.keyword == keyword

/-- The place of the key in the order. -/
def position : CallKey → Nat
  | name => 0
  | description => 1
  | version => 2
  | tags => 3
  | schedule => 4
  | parameters => 5
  | isScheduleActive => 6
  | workPoolName => 7
  | workQueueName => 8
  | jobVariables => 9
  | triggers => 10
  | image => 11

/-- Whether only a deployment to a work pool has this key. -/
def isDeployOnly : CallKey → Bool
  | workPoolName | workQueueName | jobVariables | image => true
  | _ => false

theorem mem_all (k : CallKey) : k ∈ all := by
  cases k <;> decide

theorem all_pairwise_position : all.Pairwise fun j k => j.position < k.position := by
  decide

theorem ofKeyword?_keyword (k : CallKey) : ofKeyword? k.keyword = some k := by
  cases k <;> decide

end CallKey

/-- The former spelling of `job_variables`. -/
def formerJobVariables : String := "infra_overrides"

/-- Keywords that the deprecated call needed for itself. -/
def internalKeywords : List String :=
  ["flow_name", "timestamp", "parameter_openapi_schema", "manifest_path"]

end Redeploy
