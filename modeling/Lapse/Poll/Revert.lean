import Lapse.Action.Deadline
import Lapse.Poll.World

/-!
# Reverting an action

Each kind of action is undone in its own way.

* A bounce is called off: the task cleanups and the pending entry that carry its action id are
  withdrawn, and an entry is queued that cancels the bounce.  Entries with another action id belong
  to a newer action and stay.
* A pause ends, unless something else has already moved the request out of it.
* A scale restores the saved instance count.  A request that bounces after scaling is then bounced
  in turn, which is itself a new expiring action; nothing else creates one.
* The flag that skips health checks gets its saved value back.
-/

namespace Lapse.Poll

open World (say)

/-- The end of a revert that did not fail. -/
inductive Outcome where
  | applied
  /-- There was nothing to undo. -/
  | skipped (why : String)

variable (s : Conditions)

/-- Drop a cleanup that a bounce caused.  When it was the last of its task, and cleaning is the last
the task was seen at, the task goes back to the update before that. -/
def withdrawCleanup (a : Action) (cleanup : Task.Cleanup) : Step Unit := do
  let taskId := cleanup.taskId
  say .info ("discarding cleanup for " ++ taskId.text ++ " because of " ++ a.describe)
  removeTaskCleanup s a.requestId cleanup
  match ← taskCleanup? s a.requestId taskId with
  | some _ => return
  | none =>
    say .info "no other task cleanups found, removing cleaning update"
    match (Task.Update.sort (← taskUpdates s a.requestId taskId)).reverse with
    | [] => return
    | last :: earlier =>
      if last.state = .cleaning then
        removeTaskUpdates s a.requestId taskId .cleaning earlier.head?

/-- Drop cleanups one after another. -/
def withdrawCleanups (a : Action) : List Task.Cleanup → Step Unit
  | [] => return
  | cleanup :: rest => do
    withdrawCleanup s a cleanup
    withdrawCleanups a rest

/-- Whether an action caused a cleanup. -/
def caused (a : Action) (cleanup : Task.Cleanup) : Bool :=
  cleanup.taskId.requestId = a.requestId && cleanup.actionId = some a.actionId

/-- The entry that cancels a bounce. -/
def cancellation (a : Action) (deployId message : String) : Request.Pending where
  requestId := a.requestId
  deployId := deployId
  timestamp := s.now
  user := a.user
  reason := .cancelBounce
  message := some message
  actionId := some a.actionId
  skipHealthchecks := none

/-- Call off a bounce. -/
def revertBounce (a : Action) (deployId message : String) : Step Outcome := do
  let cleanups ← taskCleanups s a.requestId
  withdrawCleanups s a (cleanups.filter (caused a))
  match ← pending? s a.requestId a.requestId deployId with
  | some entry =>
    if entry.actionId = some a.actionId then
      say .info ("discarding pending request for " ++ a.requestId ++ " because of " ++ a.describe)
      removePending s a.requestId entry
  | none => pure ()
  enqueue s a.requestId (cancellation s a deployId message)
  return .applied

/-- End a pause. -/
def revertPause (a : Action) (entry : Request.Entry) (message : String) : Step Outcome := do
  if entry.state = .paused then
    say .info ("unpausing request " ++ entry.request.id ++ " because of " ++ a.describe)
    unpause s a.requestId entry.request a.user message
    return .applied
  else
    return .skipped ("request " ++ entry.request.id ++ " is in state " ++ entry.state.name)

/-- The cleanup that a bounce after a scale begins with. -/
def cascadeCleanup (a : Action) (requestId deployId message actionId : String) :
    Request.Cleanup where
  user := a.user
  reason := .incrementalBounce
  timestamp := s.now
  requestId := requestId
  deployId := some deployId
  message := some message
  actionId := some actionId

/-- The action that a bounce after a scale becomes. -/
def cascadeAction (a : Action) (requestId deployId actionId : String) : Action where
  requestId := requestId
  actionId := actionId
  user := a.user
  startMillis := s.now
  terms := {}
  undo := .bounce deployId

/-- Bounce a request after its scale was reverted: order a cleanup, bounce the request as it was
before, and store the bounce as an action of its own.  Without a deploy in use, or with a cleanup
of this name already ordered, there is no bounce. -/
def bounceAfterScale (a : Action) (old new : Request) : Step Unit := do
  say .info ("attempting to bounce request " ++ new.id ++ " after expiring scale")
  match ← inUseDeploy s a.requestId new.id with
  | none =>
    say .debug ("no active deploy id present for request " ++ new.id ++
      ", not bouncing after expiring scale")
  | some deployId =>
    let message := "Bouncing after expiring scale by " ++ a.user
    let actionId := s.freshId (← get).minted
    match ← createCleanup s a.requestId (cascadeCleanup s a new.id deployId message actionId) with
    | .existed =>
      say .debug ("request " ++ new.id ++
        " was already bouncing, not bouncing again after expiring scale")
    | .created =>
      try
        bounce s a.requestId old a.user message
        saveAction s a.requestId (cascadeAction s a new.id deployId actionId)
      catch why =>
        say .error ("cleanup request " ++ actionId ++ " for " ++ new.id ++
          " was created but the bounce after expiring scale did not start")
        throw why

/-- Restore an instance count. -/
def revertScale (a : Action) (entry : Request.Entry) (instances : UInt32) (message : String) :
    Step Outcome := do
  let old := entry.request
  let new := { old with instances }
  updateRequest s a.requestId new entry.state (some .scaleReverted) a.user message
  if new.bouncesAfterScale then
    bounceAfterScale s a old new
  notifyScaled s a.requestId new old.instances a.user
  return .applied

/-- Restore the flag that skips health checks. -/
def revertSkipHealthchecks (a : Action) (entry : Request.Entry) (flag : Option Bool)
    (message : String) : Step Outcome := do
  let new := { entry.request with skipHealthchecks := flag }
  updateRequest s a.requestId new entry.state none a.user message
  return .applied

/-- Undo an action against the request that it belongs to. -/
def revert (a : Action) (entry : Request.Entry) (message : String) : Step Outcome :=
  match a.undo with
  | .bounce deployId => revertBounce s a deployId message
  | .pause => revertPause s a entry message
  | .scale instances => revertScale s a entry instances message
  | .skipHealthchecks flag => revertSkipHealthchecks s a entry flag message

end Lapse.Poll
