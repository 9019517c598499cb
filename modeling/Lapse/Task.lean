import Lapse.Cases
import Lapse.Text.Decimal

/-!
# Tasks

A task is one running instance of a request.  Its history is a list of updates, in the order in
which they were recorded, with a pointer to the latest.  Updates are compared by time, and at one
time by how far the task has come.
-/

namespace Lapse.Task

/-- What names a task. -/
structure Id where
  requestId : String
  deployId : String
  startedAt : Int64
  instanceNo : UInt32
  host : String
  deriving DecidableEq

/-- The parts of an id with hyphens between them.  Two ids may read alike, so it is for people
only. -/
def Id.text (t : Id) : String :=
  t.requestId ++ "-" ++ t.deployId ++ "-" ++ String.ofList (Decimal.ofInt t.startedAt.toInt) ++
    "-" ++ String.ofList (Decimal.digits t.instanceNo.toNat) ++ "-" ++ t.host

instance : ToData Id where
  toData t := .record <|
    Data.member "request_id" t.requestId ++
    Data.member "deploy_id" t.deployId ++
    Data.member "started_at" t.startedAt ++
    Data.member "instance_no" t.instanceNo ++
    Data.member "host" t.host

instance : Readable Id where
  read v := do
    let fs ← Source.fields? ["request_id", "deploy_id", "started_at", "instance_no", "host"] v
    return {
      requestId := ← fs.required 0 "request_id"
      deployId := ← fs.required 1 "deploy_id"
      startedAt := ← fs.required 2 "started_at"
      instanceNo := ← fs.required 3 "instance_no"
      host := ← fs.required 4 "host" }

/-- How far a task has come, in the order of its life. -/
inductive State where
  | launched
  | staging
  | starting
  | running
  | cleaning
  | killing
  | finished
  | failed
  | killed
  | lost
  deriving DecidableEq

namespace State

/-- Every state, in the order of a task's life. -/
def all : List State :=
  [.launched, .staging, .starting, .running, .cleaning, .killing, .finished, .failed, .killed,
    .lost]

/-- The name of a state. -/
def name : State → String
  | .launched => "TASK_LAUNCHED"
  | .staging => "TASK_STAGING"
  | .starting => "TASK_STARTING"
  | .running => "TASK_RUNNING"
  | .cleaning => "TASK_CLEANING"
  | .killing => "TASK_KILLING"
  | .finished => "TASK_FINISHED"
  | .failed => "TASK_FAILED"
  | .killed => "TASK_KILLED"
  | .lost => "TASK_LOST"

instance : Cases State := ⟨all, name⟩

/-- The place of a state in the order of a task's life. -/
def rank : State → Nat
  | .launched => 0
  | .staging => 1
  | .starting => 2
  | .running => 3
  | .cleaning => 4
  | .killing => 5
  | .finished => 6
  | .failed => 7
  | .killed => 8
  | .lost => 9

instance : Ord State := ⟨fun a b => compare a.rank b.rank⟩

/-- Whether a task in this state has ended. -/
def isDone : State → Bool
  | .finished | .failed | .killed | .lost => true
  | _ => false

end State

/-- An order to tear down a task. -/
structure Cleanup where
  taskId : Id
  user : String
  timestamp : Int64
  message : Option String
  /-- The action that ordered it. -/
  actionId : Option String
  deriving DecidableEq

instance : ToData Cleanup where
  toData c := .record <|
    Data.member "task_id" c.taskId ++
    Data.member "user" c.user ++
    Data.member "timestamp" c.timestamp ++
    Data.member "message" c.message ++
    Data.member "action_id" c.actionId

instance : Readable Cleanup where
  read v := do
    let fs ← Source.fields? ["task_id", "user", "timestamp", "message", "action_id"] v
    return {
      taskId := ← fs.required 0 "task_id"
      user := ← fs.required 1 "user"
      timestamp := ← fs.required 2 "timestamp"
      message := ← fs.optional 3 "message"
      actionId := ← fs.optional 4 "action_id" }

/-- A state that a task was seen in. -/
structure Update where
  taskId : Id
  state : State
  timestamp : Int64
  statusMessage : Option String
  deriving DecidableEq

namespace Update

instance : ToData Update where
  toData u := .record <|
    Data.member "task_id" u.taskId ++
    Data.member "state" u.state ++
    Data.member "timestamp" u.timestamp ++
    Data.member "status_message" u.statusMessage

instance : Readable Update where
  read v := do
    let fs ← Source.fields? ["task_id", "state", "timestamp", "status_message"] v
    return {
      taskId := ← fs.required 0 "task_id"
      state := ← fs.required 1 "state"
      timestamp := ← fs.required 2 "timestamp"
      statusMessage := ← fs.optional 3 "status_message" }

/-- By time, then by state. -/
instance : Ord Update where
  compare a b := (compare a.timestamp.toInt b.timestamp.toInt).then (compare a.state b.state)

/-- Put an update before the first one in a list that it does not come after. -/
def place (u : Update) : List Update → List Update
  | [] => [u]
  | v :: rest => if (compare u v).isLE then u :: v :: rest else v :: place u rest

/-- Updates in order; those that compare equal keep their order. -/
def sort (updates : List Update) : List Update := updates.foldr place []

end Update

/-- The updates of one task. -/
structure History where
  taskId : Id
  /-- In the order in which they were recorded. -/
  updates : List Update
  latest : Option Update
  deriving DecidableEq

instance : ToData History where
  toData h := .record <|
    Data.member "task_id" h.taskId ++
    Data.member "updates" h.updates ++
    Data.member "latest" h.latest

instance : Readable History where
  read v := do
    let fs ← Source.fields? ["task_id", "updates", "latest"] v
    return {
      taskId := ← fs.required 0 "task_id"
      updates := ← fs.orElse 1 "updates" []
      latest := ← fs.orElse 2 "latest" none }

end Lapse.Task
