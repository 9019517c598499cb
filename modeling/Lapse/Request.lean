import Lapse.Cases

/-!
# Requests

A request is the standing order to run a number of instances of some task.  The cluster keeps each
request with its state, a history of its changes, the cleanups ordered for it, and a queue of
pending work per request and deploy.
-/

namespace Lapse

/-- A standing order to run tasks. -/
structure Request where
  id : String
  instances : UInt32 := 1
  skipHealthchecks : Option Bool := none
  bounceAfterScale : Option Bool := none
  deriving DecidableEq

namespace Request

instance : ToData Request where
  toData r := .record <|
    Data.member "id" r.id ++
    Data.member "instances" r.instances ++
    Data.memberIfAny "skip_healthchecks" r.skipHealthchecks ++
    Data.memberIfAny "bounce_after_scale" r.bounceAfterScale

instance : Readable Request where
  read v := do
    let fs ← Source.fields? ["id", "instances", "skip_healthchecks", "bounce_after_scale"] v
    return {
      id := ← fs.required 0 "id"
      instances := ← fs.orElse 1 "instances" 1
      skipHealthchecks := ← fs.orElse 2 "skip_healthchecks" none
      bounceAfterScale := ← fs.orElse 3 "bounce_after_scale" none }

/-- Whether a change of the instance count is followed by a bounce. -/
def bouncesAfterScale (r : Request) : Bool := r.bounceAfterScale.getD false

/-- What the cluster is doing with a request. -/
inductive State where
  | active
  | paused
  | deleted
  | systemCooldown
  | finished
  | deployingToUnpause
  deriving DecidableEq

namespace State

/-- Every state. -/
def all : List State :=
  [.active, .paused, .deleted, .systemCooldown, .finished, .deployingToUnpause]

/-- The name of a state. -/
def name : State → String
  | .active => "active"
  | .paused => "paused"
  | .deleted => "deleted"
  | .systemCooldown => "system_cooldown"
  | .finished => "finished"
  | .deployingToUnpause => "deploying_to_unpause"

instance : Cases State := ⟨all, name⟩

end State

/-- A request as the cluster holds it. -/
structure Entry where
  request : Request
  state : State
  deriving DecidableEq

instance : ToData Entry where
  toData e := .record (Data.member "request" e.request ++ Data.member "state" e.state)

instance : Readable Entry where
  read v := do
    let fs ← Source.fields? ["request", "state"] v
    return { request := ← fs.required 0 "request", state := ← fs.required 1 "state" }

/-- What happened to a request. -/
inductive Event where
  | created
  | updated
  | deleted
  | paused
  | unpaused
  | bounced
  | scaled
  | scaleReverted
  deriving DecidableEq

instance : Cases Event where
  all := [.created, .updated, .deleted, .paused, .unpaused, .bounced, .scaled, .scaleReverted]
  name
    | .created => "CREATED"
    | .updated => "UPDATED"
    | .deleted => "DELETED"
    | .paused => "PAUSED"
    | .unpaused => "UNPAUSED"
    | .bounced => "BOUNCED"
    | .scaled => "SCALED"
    | .scaleReverted => "SCALE_REVERTED"

/-- An entry in the history of a request. -/
structure Record where
  requestId : String
  event : Event
  user : String
  timestamp : Int64
  instances : UInt32
  message : Option String
  deriving DecidableEq

instance : ToData Record where
  toData r := .record <|
    Data.member "request_id" r.requestId ++
    Data.member "history_type" r.event ++
    Data.member "user" r.user ++
    Data.member "timestamp" r.timestamp ++
    Data.member "instances" r.instances ++
    Data.member "message" r.message

instance : Readable Record where
  read v := do
    let fs ← Source.fields?
      ["request_id", "history_type", "user", "timestamp", "instances", "message"] v
    return {
      requestId := ← fs.required 0 "request_id"
      event := ← fs.required 1 "history_type"
      user := ← fs.required 2 "user"
      timestamp := ← fs.required 3 "timestamp"
      instances := ← fs.required 4 "instances"
      message := ← fs.optional 5 "message" }

/-- Why a request is cleaned up. -/
inductive CleanupReason where
  | deleting
  | pausing
  | bounce
  | incrementalBounce
  deriving DecidableEq

instance : Cases CleanupReason where
  all := [.deleting, .pausing, .bounce, .incrementalBounce]
  name
    | .deleting => "DELETING"
    | .pausing => "PAUSING"
    | .bounce => "BOUNCE"
    | .incrementalBounce => "INCREMENTAL_BOUNCE"

/-- An order to clean up a request. -/
structure Cleanup where
  user : String
  reason : CleanupReason
  timestamp : Int64
  requestId : String
  deployId : Option String
  message : Option String
  actionId : Option String
  deriving DecidableEq

instance : ToData Cleanup where
  toData c := .record <|
    Data.member "user" c.user ++
    Data.member "cleanup_type" c.reason ++
    Data.member "timestamp" c.timestamp ++
    Data.member "request_id" c.requestId ++
    Data.member "deploy_id" c.deployId ++
    Data.member "message" c.message ++
    Data.member "action_id" c.actionId

instance : Readable Cleanup where
  read v := do
    let fs ← Source.fields? ["user", "cleanup_type", "timestamp", "request_id", "deploy_id",
      "message", "action_id"] v
    return {
      user := ← fs.required 0 "user"
      reason := ← fs.required 1 "cleanup_type"
      timestamp := ← fs.required 2 "timestamp"
      requestId := ← fs.required 3 "request_id"
      deployId := ← fs.optional 4 "deploy_id"
      message := ← fs.optional 5 "message"
      actionId := ← fs.optional 6 "action_id" }

/-- Why work is pending for a request. -/
inductive PendingReason where
  | immediate
  | onetime
  | newDeploy
  | bounce
  | cancelBounce
  | unpaused
  | updated
  deriving DecidableEq

instance : Cases PendingReason where
  all := [.immediate, .onetime, .newDeploy, .bounce, .cancelBounce, .unpaused, .updated]
  name
    | .immediate => "IMMEDIATE"
    | .onetime => "ONETIME"
    | .newDeploy => "NEW_DEPLOY"
    | .bounce => "BOUNCE"
    | .cancelBounce => "CANCEL_BOUNCE"
    | .unpaused => "UNPAUSED"
    | .updated => "UPDATED"

/-- An order, waiting in a queue, to schedule the tasks of a request and deploy anew. -/
structure Pending where
  requestId : String
  deployId : String
  timestamp : Int64
  user : String
  reason : PendingReason
  message : Option String
  actionId : Option String
  skipHealthchecks : Option Bool
  deriving DecidableEq

instance : ToData Pending where
  toData p := .record <|
    Data.member "request_id" p.requestId ++
    Data.member "deploy_id" p.deployId ++
    Data.member "timestamp" p.timestamp ++
    Data.member "user" p.user ++
    Data.member "pending_type" p.reason ++
    Data.member "message" p.message ++
    Data.member "action_id" p.actionId ++
    Data.memberIfAny "skip_healthchecks" p.skipHealthchecks

instance : Readable Pending where
  read v := do
    let fs ← Source.fields? ["request_id", "deploy_id", "timestamp", "user", "pending_type",
      "message", "action_id", "skip_healthchecks"] v
    return {
      requestId := ← fs.required 0 "request_id"
      deployId := ← fs.required 1 "deploy_id"
      timestamp := ← fs.required 2 "timestamp"
      user := ← fs.required 3 "user"
      reason := ← fs.required 4 "pending_type"
      message := ← fs.optional 5 "message"
      actionId := ← fs.optional 6 "action_id"
      skipHealthchecks := ← fs.orElse 7 "skip_healthchecks" none }

end Request

/-- Whether something that is created if absent was there before. -/
inductive Creation where
  | created
  | existed
  deriving DecidableEq

instance : Cases Creation where
  all := [.created, .existed]
  name
    | .created => "created"
    | .existed => "existed"

end Lapse
