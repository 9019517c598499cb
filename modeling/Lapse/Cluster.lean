import Lapse.Failure
import Lapse.Request
import Lapse.Task

/-!
# The cluster

The cluster is everything a poll may change besides the store of expiring actions: the requests and
the deploys they use, the queue of task cleanups, the histories of tasks and requests, the pending
queue, the cleanups of requests and the notifications sent.  An operation that stamps an entry with
the time of the wall clock takes that time as `wall`.
-/

namespace Lapse

/-- A message that a request was scaled. -/
structure Notification where
  requestId : String
  oldInstances : UInt32
  newInstances : UInt32
  user : String
  timestamp : Int64
  deriving DecidableEq

instance : ToData Notification where
  toData n := .record <|
    Data.member "request_id" n.requestId ++
    Data.member "old_instances" n.oldInstances ++
    Data.member "new_instances" n.newInstances ++
    Data.member "user" n.user ++
    Data.member "timestamp" n.timestamp

instance : Readable Notification where
  read v := do
    let fs ← Source.fields?
      ["request_id", "old_instances", "new_instances", "user", "timestamp"] v
    return {
      requestId := ← fs.required 0 "request_id"
      oldInstances := ← fs.required 1 "old_instances"
      newInstances := ← fs.required 2 "new_instances"
      user := ← fs.required 3 "user"
      timestamp := ← fs.required 4 "timestamp" }

/-- The state of the cluster. -/
structure Cluster where
  requests : OrderedMap String Request.Entry := .empty
  /-- The deploy that each request uses. -/
  inUseDeploys : OrderedMap String String := .empty
  taskCleanups : List Task.Cleanup := []
  taskHistories : List Task.History := []
  pending : List Request.Pending := []
  requestCleanups : List Request.Cleanup := []
  requestHistory : List Request.Record := []
  notifications : List Notification := []
  deriving DecidableEq

namespace Cluster

instance : ToData Cluster where
  toData c := .record <|
    Data.member "requests" c.requests ++
    Data.member "in_use_deploys" c.inUseDeploys ++
    Data.member "task_cleanups" c.taskCleanups ++
    Data.member "task_history" c.taskHistories ++
    Data.member "pending_requests" c.pending ++
    Data.member "request_cleanups" c.requestCleanups ++
    Data.member "request_history" c.requestHistory ++
    Data.member "notifications" c.notifications

instance : Readable Cluster where
  read v := do
    let fs ← Source.fields? ["requests", "in_use_deploys", "task_cleanups", "task_history",
      "pending_requests", "request_cleanups", "request_history", "notifications"] v
    return {
      requests := ← fs.orElse 0 "requests" .empty
      inUseDeploys := ← fs.orElse 1 "in_use_deploys" .empty
      taskCleanups := ← fs.orElse 2 "task_cleanups" []
      taskHistories := ← fs.orElse 3 "task_history" []
      pending := ← fs.orElse 4 "pending_requests" []
      requestCleanups := ← fs.orElse 5 "request_cleanups" []
      requestHistory := ← fs.orElse 6 "request_history" []
      notifications := ← fs.orElse 7 "notifications" [] }

/-! ## Requests -/

/-- Store a request under its own id. -/
def insertRequest (c : Cluster) (request : Request) (state : Request.State) : Cluster :=
  { c with requests := c.requests.insert request.id ⟨request, state⟩ }

/-- Set the deploy that a request uses. -/
def setInUseDeploy (c : Cluster) (requestId deployId : String) : Cluster :=
  { c with inUseDeploys := c.inUseDeploys.insert requestId deployId }

/-- Append an entry about a request to the history. -/
def record (c : Cluster) (wall : Int64) (request : Request) (event : Request.Event)
    (user : String) (message : Option String) : Cluster :=
  { c with
    requestHistory := c.requestHistory ++
      [{ requestId := request.id, event, user, timestamp := wall,
         instances := request.instances, message }] }

/-- Queue work for the deploy that a request uses, if there is one. -/
def enqueueForDeploy (c : Cluster) (wall : Int64) (requestId : String)
    (reason : Request.PendingReason) (user : String) (message : Option String)
    (skipHealthchecks : Option Bool) : Cluster :=
  match c.inUseDeploys.get? requestId with
  | none => c
  | some deployId =>
    { c with
      pending := c.pending ++
        [{ requestId, deployId, timestamp := wall, user, reason, message, actionId := none,
           skipHealthchecks }] }

/-- Replace a request and its state.  A request without instances is refused, and one that is not
there; otherwise the change is recorded, and work is queued if the request is active. -/
def updateRequest (c : Cluster) (wall : Int64) (new : Request) (state : Request.State)
    (event : Option Request.Event) (user : String) (skipHealthchecks : Option Bool)
    (message : Option String) : Except Failure Cluster :=
  if new.instances = 0 then .error (.noInstances new.id)
  else if c.requests.contains new.id then
    let c := { c with requests := c.requests.insert new.id ⟨new, state⟩ }
    let c := c.record wall new (event.getD .updated) user message
    .ok <|
      if state = .active then c.enqueueForDeploy wall new.id .updated user message skipHealthchecks
      else c
  else .error (.requestNotFound new.id)

/-- Make a request active, record that, and queue work for it. -/
def unpause (c : Cluster) (wall : Int64) (request : Request) (user : String)
    (message : Option String) (skipHealthchecks : Option Bool) : Except Failure Cluster :=
  match c.requests.get? request.id with
  | none => .error (.requestNotFound request.id)
  | some entry =>
    let c := { c with requests := c.requests.insert request.id { entry with state := .active } }
    let c := c.record wall request .unpaused user message
    .ok (c.enqueueForDeploy wall request.id .unpaused user message skipHealthchecks)

/-- Order a cleanup, unless there is one for the same request and action. -/
def createCleanup (c : Cluster) (cleanup : Request.Cleanup) : Creation × Cluster :=
  if c.requestCleanups.any fun old =>
      old.requestId = cleanup.requestId && old.actionId = cleanup.actionId then (.existed, c)
  else (.created, { c with requestCleanups := c.requestCleanups ++ [cleanup] })

/-- Record that a request was bounced. -/
def bounce (c : Cluster) (wall : Int64) (request : Request) (user : String)
    (message : Option String) : Cluster :=
  c.record wall request .bounced user message

/-! ## Tasks -/

/-- Remove the first cleanup equal to this one. -/
def removeTaskCleanup (c : Cluster) (cleanup : Task.Cleanup) : Cluster :=
  { c with taskCleanups := c.taskCleanups.erase cleanup }

/-- The first cleanup that is queued for a task. -/
def taskCleanup? (c : Cluster) (taskId : Task.Id) : Option Task.Cleanup :=
  c.taskCleanups.find? fun cleanup => cleanup.taskId = taskId

/-- The history of a task. -/
def taskHistory? (c : Cluster) (taskId : Task.Id) : Option Task.History :=
  c.taskHistories.find? fun h => h.taskId = taskId

/-- The updates of a task, in the order in which they were recorded. -/
def taskUpdates (c : Cluster) (taskId : Task.Id) : List Task.Update :=
  ((c.taskHistory? taskId).map (·.updates)).getD []

/-- The update that counts as the latest of a task. -/
def latestTaskUpdate (c : Cluster) (taskId : Task.Id) : Option Task.Update :=
  (c.taskHistory? taskId).bind (·.latest)

/-- Change the first history of a task; a task without one gets an empty one first. -/
def changeHistory (taskId : Task.Id) (f : Task.History → Task.History) :
    List Task.History → List Task.History
  | [] => [f ⟨taskId, [], none⟩]
  | h :: rest => if h.taskId = taskId then f h :: rest else h :: changeHistory taskId f rest

/-- Append an update to the history of its task and make it the latest. -/
def recordTaskUpdate (c : Cluster) (update : Task.Update) : Cluster :=
  { c with
    taskHistories := changeHistory update.taskId
      (fun h => { h with updates := h.updates ++ [update], latest := some update })
      c.taskHistories }

/-- Remove the updates of a task with a state, and make another update the latest. -/
def removeTaskUpdates (c : Cluster) (taskId : Task.Id) (state : Task.State)
    (latest : Option Task.Update) : Cluster :=
  { c with
    taskHistories := changeHistory taskId
      (fun h => { h with updates := h.updates.filter (·.state ≠ state), latest })
      c.taskHistories }

/-! ## The pending queue and notifications -/

/-- The first pending entry for a request and deploy. -/
def pending? (c : Cluster) (requestId deployId : String) : Option Request.Pending :=
  c.pending.find? fun p => p.requestId = requestId && p.deployId = deployId

/-- Remove every pending entry equal to this one. -/
def removePending (c : Cluster) (entry : Request.Pending) : Cluster :=
  { c with pending := c.pending.filter (· ≠ entry) }

/-- Append an entry to the pending queue. -/
def enqueue (c : Cluster) (entry : Request.Pending) : Cluster :=
  { c with pending := c.pending ++ [entry] }

/-- Append a notification that a request was scaled. -/
def notifyScaled (c : Cluster) (wall : Int64) (request : Request) (oldInstances : UInt32)
    (user : String) : Cluster :=
  { c with
    notifications := c.notifications ++
      [{ requestId := request.id, oldInstances, newInstances := request.instances, user,
         timestamp := wall }] }

end Cluster

end Lapse
