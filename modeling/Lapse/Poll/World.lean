import Lapse.Cluster
import Lapse.Config
import Lapse.Store

/-!
# What a poll works on

A poll reads and changes the store and the cluster through single calls, each of which may fail
before it does anything.  Which calls fail is part of the conditions of the poll: a fault is given
for a call by its number in the pass, by what is asked, and by the request whose revert asks it.
The world notes every call together with the fault that met it.  A step is a computation over the
world that may stop with a failure; what it did before that stays done.
-/

namespace Lapse.Poll

/-- What a poll may ask of the store and the cluster. -/
inductive Operation where
  | listActions (kind : Kind)
  | removeAction (kind : Kind) (requestId : String)
  | saveAction (action : Action)
  | findRequest (requestId : String)
  | updateRequest (new : Request)
  | unpause (request : Request)
  | inUseDeploy (requestId : String)
  | createCleanup (cleanup : Request.Cleanup)
  | bounce (request : Request)
  | taskCleanups
  | removeTaskCleanup (cleanup : Task.Cleanup)
  | taskCleanup (taskId : Task.Id)
  | taskUpdates (taskId : Task.Id)
  | removeTaskUpdates (taskId : Task.Id)
  | pending (requestId deployId : String)
  | removePending (entry : Request.Pending)
  | enqueue (entry : Request.Pending)
  | notifyScaled (request : Request)
  deriving DecidableEq

/-- A call: what is asked, and the request whose revert asks it. -/
structure Call where
  during : Option String
  operation : Operation
  deriving DecidableEq

/-- How a call goes wrong. -/
inductive Fault where
  /-- It fails and does nothing. -/
  | fails (why : Failure)
  /-- What it should create is said to exist; other calls do not mind. -/
  | present

/-- The faults of a pass: for the number of a call and the call itself. -/
abbrev Faults := Nat → Call → Option Fault

/-- A call that was made, and the fault that met it. -/
structure Made where
  call : Call
  fault : Option Fault

/-- The conditions of a pass. -/
structure Conditions where
  config : Config
  /-- The instant of the poll. -/
  now : Int64
  /-- What the wall clock shows. -/
  wall : Int64
  /-- The supply of action ids that are not yet in use. -/
  freshId : Nat → String
  faults : Faults := fun _ _ => none

/-- Everything a pass changes. -/
structure World where
  store : Store := .empty
  cluster : Cluster := {}
  /-- How many fresh action ids are in use. -/
  minted : Nat := 0
  /-- How many calls were made in this pass. -/
  calls : Nat := 0
  /-- Every call made, in order. -/
  trace : List Made := []
  log : List LogLine := []

/-- A computation over the world that may fail. -/
abbrev Step (α : Type) := ExceptT Failure (StateM World) α

namespace World

/-- Count a call and note what met it. -/
def note (w : World) (c : Call) (fault : Option Fault) : World :=
  { w with calls := w.calls + 1, trace := w.trace ++ [⟨c, fault⟩] }

/-- Append a line to the log. -/
def say (level : Level) (message : String) : StateM World Unit :=
  modify fun w => { w with log := w.log ++ [⟨level, message⟩] }

end World

open World (say)

/-- Count and note a call; the answer is the fault that meets it. -/
def meet (s : Conditions) (during : Option String) (operation : Operation) :
    StateM World (Option Fault) := do
  let w ← get
  let fault := s.faults w.calls ⟨during, operation⟩
  set (w.note ⟨during, operation⟩ fault)
  return fault

/-- Make a call: it fails, or it does what it does. -/
def call {α : Type} (s : Conditions) (during : Option String) (operation : Operation)
    (act : Step α) : Step α := do
  match ← meet s during operation with
  | some (.fails why) => throw why
  | _ => act

/-- The cluster as it is. -/
def cluster : Step Cluster := return (← get).cluster

/-- Change the cluster. -/
def changeCluster (f : Cluster → Cluster) : Step Unit :=
  modify fun w => { w with cluster := f w.cluster }

/-- Change the cluster, unless the change is refused. -/
def tryChange (f : Cluster → Except Failure Cluster) : Step Unit := do
  match f (← cluster) with
  | .ok c => changeCluster fun _ => c
  | .error why => throw why

/-! ## The calls -/

/-- The stored actions of a kind; records that read as no action are removed. -/
def listActions (s : Conditions) (kind : Kind) : Step (List Action) :=
  call s none (.listActions kind) do
    let w ← get
    let (actions, store, lines) := w.store.list kind
    set { w with store, log := w.log ++ lines }
    return actions

/-- Remove a stored action. -/
def removeAction (s : Conditions) (kind : Kind) (requestId : String) : Step Unit :=
  call s none (.removeAction kind requestId) do
    modify fun w => { w with store := w.store.remove kind requestId }

/-- Find a request. -/
def findRequest (s : Conditions) (requestId : String) : Step (Option Request.Entry) :=
  call s none (.findRequest requestId) do return (← cluster).requests.get? requestId

section Revert

variable (s : Conditions) (during : String)

/-- Store an action. -/
def saveAction (action : Action) : Step Unit :=
  call s during (.saveAction action) do
    modify fun w => { w with store := w.store.save action }

/-- Replace a request and its state. -/
def updateRequest (new : Request) (state : Request.State) (event : Option Request.Event)
    (user message : String) : Step Unit :=
  call s during (.updateRequest new) <|
    tryChange fun c => c.updateRequest s.wall new state event user none (some message)

/-- Make a request active. -/
def unpause (request : Request) (user message : String) : Step Unit :=
  call s during (.unpause request) <|
    tryChange fun c => c.unpause s.wall request user (some message) none

/-- The deploy that a request uses. -/
def inUseDeploy (requestId : String) : Step (Option String) :=
  call s during (.inUseDeploy requestId) do return (← cluster).inUseDeploys.get? requestId

/-- Order a cleanup under the next fresh action id, which is used up if the cleanup is new. -/
def createCleanup (cleanup : Request.Cleanup) : Step Creation := do
  match ← meet s during (.createCleanup cleanup) with
  | some (.fails why) => throw why
  | some .present => return .existed
  | none =>
    let (creation, c) := (← cluster).createCleanup cleanup
    changeCluster fun _ => c
    if creation = .created then modify fun w => { w with minted := w.minted + 1 }
    return creation

/-- Bounce a request. -/
def bounce (request : Request) (user message : String) : Step Unit :=
  call s during (.bounce request) <|
    changeCluster fun c => c.bounce s.wall request user (some message)

/-- The queue of task cleanups. -/
def taskCleanups : Step (List Task.Cleanup) :=
  call s during .taskCleanups do return (← cluster).taskCleanups

/-- Remove a task cleanup. -/
def removeTaskCleanup (cleanup : Task.Cleanup) : Step Unit :=
  call s during (.removeTaskCleanup cleanup) <| changeCluster fun c => c.removeTaskCleanup cleanup

/-- Some cleanup of a task. -/
def taskCleanup? (taskId : Task.Id) : Step (Option Task.Cleanup) :=
  call s during (.taskCleanup taskId) do return (← cluster).taskCleanup? taskId

/-- The updates of a task. -/
def taskUpdates (taskId : Task.Id) : Step (List Task.Update) :=
  call s during (.taskUpdates taskId) do return (← cluster).taskUpdates taskId

/-- Remove the updates of a task with a state. -/
def removeTaskUpdates (taskId : Task.Id) (state : Task.State) (latest : Option Task.Update) :
    Step Unit :=
  call s during (.removeTaskUpdates taskId) <|
    changeCluster fun c => c.removeTaskUpdates taskId state latest

/-- Some pending entry for a request and deploy. -/
def pending? (requestId deployId : String) : Step (Option Request.Pending) :=
  call s during (.pending requestId deployId) do return (← cluster).pending? requestId deployId

/-- Remove a pending entry. -/
def removePending (entry : Request.Pending) : Step Unit :=
  call s during (.removePending entry) <| changeCluster fun c => c.removePending entry

/-- Append a pending entry. -/
def enqueue (entry : Request.Pending) : Step Unit :=
  call s during (.enqueue entry) <| changeCluster fun c => c.enqueue entry

/-- Notify that a request was scaled.  The line of the log comes with the notification. -/
def notifyScaled (request : Request) (oldInstances : UInt32) (user : String) : Step Unit :=
  call s during (.notifyScaled request) do
    say .info "request scaled"
    changeCluster fun c => c.notifyScaled s.wall request oldInstances user

end Revert

end Lapse.Poll
