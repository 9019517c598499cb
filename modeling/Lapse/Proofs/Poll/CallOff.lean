import Lapse.Poll.Revert
import Lapse.Proofs.Poll.Step
import Lapse.Proofs.Task

/-!
# Calling off a bounce, without failures

When no call fails, calling off a bounce is a function of the cluster.  This function is given
here, and what it does to the parts of the cluster: it removes from the queue of cleanups all that
the bounce caused and nothing else, rolls back the histories of the tasks that have no cleanup
left, removes at most one kind of entry from the pending queue, and appends the entry that cancels
the bounce.
-/

namespace Lapse

namespace Cluster

/-- The cluster with the history of a task rolled back. -/
def rolledBack (c : Cluster) (t : Task.Id) : Cluster :=
  { c with taskHistories := Task.History.rollBack c.taskHistories t }

/-- The cluster with a cleanup withdrawn. -/
def withdrawn (c : Cluster) (cleanup : Task.Cleanup) : Cluster :=
  if ((c.removeTaskCleanup cleanup).taskCleanup? cleanup.taskId).isSome then
    c.removeTaskCleanup cleanup
  else (c.removeTaskCleanup cleanup).rolledBack cleanup.taskId

/-- The cluster without the pending entry of a request and deploy, if an action caused it. -/
def pendingWithdrawn (c : Cluster) (a : Action) (deployId : String) : Cluster :=
  match c.pending? a.requestId deployId with
  | some entry => if entry.actionId = some a.actionId then c.removePending entry else c
  | none => c

/-- The cluster with a bounce called off. -/
def calledOff (s : Poll.Conditions) (a : Action) (deployId message : String) (c : Cluster) :
    Cluster :=
  (((c.taskCleanups.filter (Poll.caused a)).foldl withdrawn c).pendingWithdrawn a
    deployId).enqueue (Poll.cancellation s a deployId message)

/-- Rolling back, from the updates of the task. -/
theorem rolledBack_eq (c : Cluster) (t : Task.Id) :
    c.rolledBack t =
      match (Task.Update.sort (c.taskUpdates t)).reverse with
      | [] => c
      | last :: earlier =>
        if last.state = .cleaning then c.removeTaskUpdates t .cleaning earlier.head? else c := by
  cases hfind : c.taskHistory? t with
  | none =>
      rw [taskUpdates, hfind, rolledBack, Task.History.rollBack_eq_self]
      · rfl
      · intro h hh
        exact nomatch hfind.symm.trans hh
  | some h =>
      have hself : h.rolledBack = h → c.rolledBack t = c := by
        intro hsame
        rw [rolledBack, Task.History.rollBack_eq_self]
        intro h' hh'
        rw [← Option.some.inj (hfind.symm.trans hh'), hsame]
      rw [taskUpdates, hfind]
      show _ = match (Task.Update.sort h.updates).reverse with | [] => c | last :: earlier => _
      rcases hrev : (Task.Update.sort h.updates).reverse with _ | ⟨last, earlier⟩
      · exact hself (by rw [Task.History.rolledBack, hrev])
      · dsimp only
        by_cases hlast : last.state = .cleaning
        · rw [if_pos hlast, rolledBack, Task.History.rollBack_eq_change hfind]
          · rfl
          · rw [Task.History.rolledBack, hrev]
            exact if_pos hlast
        · rw [if_neg hlast]
          refine hself ?_
          rw [Task.History.rolledBack, hrev]
          exact if_neg hlast

/-! ## What the parts of the cluster become -/

theorem withdrawn_taskCleanups (c : Cluster) (cleanup : Task.Cleanup) :
    (c.withdrawn cleanup).taskCleanups = c.taskCleanups.erase cleanup := by
  rw [withdrawn]
  split <;> rfl

theorem withdrawn_pending (c : Cluster) (cleanup : Task.Cleanup) :
    (c.withdrawn cleanup).pending = c.pending := by
  rw [withdrawn]
  split <;> rfl

theorem foldl_withdrawn_taskCleanups (cleanups : List Task.Cleanup) (c : Cluster) :
    (cleanups.foldl withdrawn c).taskCleanups = cleanups.foldl List.erase c.taskCleanups := by
  induction cleanups generalizing c with
  | nil => rfl
  | cons cleanup rest ih =>
      rw [List.foldl_cons, List.foldl_cons, ih, withdrawn_taskCleanups]

theorem foldl_withdrawn_pending (cleanups : List Task.Cleanup) (c : Cluster) :
    (cleanups.foldl withdrawn c).pending = c.pending := by
  induction cleanups generalizing c with
  | nil => rfl
  | cons cleanup rest ih => rw [List.foldl_cons, ih, withdrawn_pending]

/-- Erasing one after another the members that pass a test leaves those that do not. -/
theorem foldl_erase_filter (p : Task.Cleanup → Bool) (before rest : List Task.Cleanup)
    (h : ∀ x ∈ before, p x = false) :
    (rest.filter p).foldl List.erase (before ++ rest) =
      before ++ rest.filter (fun x => !p x) := by
  -- what was passed over stands before the rest, so an erasure does not stop there
  induction rest generalizing before with
  | nil => rfl
  | cons x rest ih =>
      cases hx : p x with
      | true =>
          have hnot : x ∉ before := fun hmem => Bool.false_ne_true ((h x hmem).symm.trans hx)
          rw [List.filter_cons_of_pos hx, List.foldl_cons, List.erase_append_right _ hnot,
            List.erase_cons_head, ih before h, List.filter_cons_of_neg (by simp [hx])]
      | false =>
          have hmore : ∀ y ∈ before ++ [x], p y = false := by
            intro y hy
            rcases List.mem_append.mp hy with hy | hy
            · exact h y hy
            · rw [List.mem_singleton.mp hy, hx]
          rw [List.filter_cons_of_neg (by simp [hx]), List.filter_cons_of_pos (by simp [hx]),
            List.append_cons, ih _ hmore, List.append_assoc]
          rfl

theorem pendingWithdrawn_pending {c c' : Cluster} (h : c'.pending = c.pending) (a : Action)
    (deployId : String) :
    (c'.pendingWithdrawn a deployId).pending = (c.pendingWithdrawn a deployId).pending := by
  have hfound : c'.pending? a.requestId deployId = c.pending? a.requestId deployId := by
    rw [pending?, h]
    rfl
  rw [pendingWithdrawn, pendingWithdrawn, hfound]
  cases c.pending? a.requestId deployId with
  | none => exact h
  | some entry =>
      dsimp only
      split
      · exact congrArg (List.filter (· ≠ entry)) h
      · exact h

theorem pendingWithdrawn_taskCleanups (c : Cluster) (a : Action) (deployId : String) :
    (c.pendingWithdrawn a deployId).taskCleanups = c.taskCleanups := by
  rw [pendingWithdrawn]
  split
  · split <;> rfl
  · rfl

theorem pendingWithdrawn_taskHistories (c : Cluster) (a : Action) (deployId : String) :
    (c.pendingWithdrawn a deployId).taskHistories = c.taskHistories := by
  rw [pendingWithdrawn]
  split
  · split <;> rfl
  · rfl

variable (s : Poll.Conditions) (a : Action) (deployId message : String) (c : Cluster)

/-- The queue of cleanups keeps what the bounce did not cause. -/
theorem calledOff_taskCleanups : (c.calledOff s a deployId message).taskCleanups =
    c.taskCleanups.filter fun cleanup => !Poll.caused a cleanup := by
  show (Cluster.pendingWithdrawn _ a deployId).taskCleanups = _
  rw [pendingWithdrawn_taskCleanups, foldl_withdrawn_taskCleanups]
  exact foldl_erase_filter (Poll.caused a) [] c.taskCleanups fun _ h => nomatch h

/-- The pending queue loses what it loses by itself, and gains the cancellation at its end. -/
theorem calledOff_pending : (c.calledOff s a deployId message).pending =
    (c.pendingWithdrawn a deployId).pending ++ [Poll.cancellation s a deployId message] := by
  show (Cluster.pendingWithdrawn _ a deployId).pending ++ _ = _
  rw [pendingWithdrawn_pending (foldl_withdrawn_pending _ c)]

theorem calledOff_taskHistories : (c.calledOff s a deployId message).taskHistories =
    ((c.taskCleanups.filter (Poll.caused a)).foldl withdrawn c).taskHistories := by
  show (Cluster.pendingWithdrawn _ a deployId).taskHistories = _
  rw [pendingWithdrawn_taskHistories]

end Cluster

namespace Poll

variable {s : Conditions}

/-- The entry of the queue that cancels the bounce of a deploy. -/
structure Cancels (s : Conditions) (a : Action) (deployId message : String)
    (entry : Request.Pending) : Prop where
  requestId : entry.requestId = a.requestId
  deployId : entry.deployId = deployId
  timestamp : entry.timestamp = s.now
  user : entry.user = a.user
  reason : entry.reason = .cancelBounce
  message : entry.message = some message
  actionId : entry.actionId = some a.actionId
  skipHealthchecks : entry.skipHealthchecks = none

theorem cancels_cancellation (s : Conditions) (a : Action) (deployId message : String) :
    Cancels s a deployId message (cancellation s a deployId message) :=
  ⟨rfl, rfl, rfl, rfl, rfl, rfl, rfl, rfl⟩

theorem rollBack_turns {during : String} (hs : s.Spares during) (t : Task.Id) (c : Cluster) :
    Turns (do
      match (Task.Update.sort (← taskUpdates s during t)).reverse with
      | [] => return
      | last :: earlier =>
        if last.state = .cleaning then
          removeTaskUpdates s during t .cleaning earlier.head?) c () (c.rolledBack t) := by
  refine (Turns.read hs _ c).bind ?_
  rw [Cluster.rolledBack_eq]
  rcases (Task.Update.sort (c.taskUpdates t)).reverse with _ | ⟨last, earlier⟩
  · exact Turns.pure () c
  · dsimp only
    by_cases hlast : last.state = .cleaning
    · rw [if_pos hlast, if_pos hlast]
      exact Turns.change hs _ c
    · rw [if_neg hlast, if_neg hlast]
      exact Turns.pure () c

theorem withdrawCleanup_turns {a : Action} (hs : s.Spares a.requestId) (cleanup : Task.Cleanup)
    (c : Cluster) : Turns (withdrawCleanup s a cleanup) c () (c.withdrawn cleanup) := by
  unfold withdrawCleanup
  refine (Turns.say _ _ c).bind ((Turns.change hs _ c).bind ((Turns.read hs _ _).bind ?_))
  rw [Cluster.withdrawn]
  cases hfound : (c.removeTaskCleanup cleanup).taskCleanup? cleanup.taskId with
  | some other =>
      rw [if_pos (show (some other).isSome = true from rfl)]
      exact Turns.pure () _
  | none =>
      rw [if_neg (by simp)]
      exact (Turns.say _ _ _).bind (rollBack_turns hs cleanup.taskId _)

theorem withdrawCleanups_turns {a : Action} (hs : s.Spares a.requestId) (cleanups : List Task.Cleanup)
    (c : Cluster) :
    Turns (withdrawCleanups s a cleanups) c () (cleanups.foldl Cluster.withdrawn c) := by
  induction cleanups generalizing c with
  | nil => exact Turns.pure () c
  | cons cleanup rest ih => exact (withdrawCleanup_turns hs cleanup c).bind (ih _)

/-- **CALLING OFF**: when no call of it fails, calling off a bounce succeeds, and the cluster that it
leaves is a function of the one it finds. -/
theorem revertBounce_turns {a : Action} (hs : s.Spares a.requestId) (deployId message : String)
    (c : Cluster) :
    Turns (revertBounce s a deployId message) c .applied (c.calledOff s a deployId message) := by
  unfold revertBounce
  refine (Turns.read hs _ c).bind ((withdrawCleanups_turns hs _ c).bind ?_)
  rw [Cluster.calledOff]
  generalize (c.taskCleanups.filter (caused a)).foldl Cluster.withdrawn c = c₁
  refine (Turns.read hs _ c₁).bind ?_
  have queued : ∀ c, Turns (do
      enqueue s a.requestId (cancellation s a deployId message)
      return Outcome.applied : Step Outcome) c .applied
      (c.enqueue (cancellation s a deployId message)) :=
    fun c => (Turns.change hs _ c).bind (Turns.pure _ _)
  rw [Cluster.pendingWithdrawn]
  cases hfound : c₁.pending? a.requestId deployId with
  | none => exact queued c₁
  | some entry =>
      dsimp only
      by_cases hcaused : entry.actionId = some a.actionId
      · rw [if_pos hcaused, if_pos hcaused]
        exact (Turns.say _ _ c₁).bind ((Turns.change hs _ c₁).bind (queued _))
      · rw [if_neg hcaused, if_neg hcaused]
        exact queued c₁

end Poll

end Lapse
