import Lapse.Proofs.Poll.Histories
import Lapse.Proofs.Poll.Pending

/-!
# What an expired bounce leaves of the tasks

Calling off a bounce walks over a copy of the queue of cleanups while the queue itself shrinks.  What
it comes to does not depend on the walk: the queue loses every cleanup that the bounce caused, and a
history is cut back exactly if its task lost such a cleanup, has none of any kind left, and was last
seen cleaning.  Nothing else of the cluster changes but the pending queue.
-/

namespace Lapse

namespace Cluster

variable (s : Poll.Conditions) (a : Action) (deployId message : String)

/-- Withdrawing cleanups writes to their queue and to the histories of tasks. -/
theorem foldl_withdrawn_eq (cleanups : List Task.Cleanup) (c : Cluster) :
    ∃ queue histories, cleanups.foldl withdrawn c =
      { c with taskCleanups := queue, taskHistories := histories } := by
  induction cleanups generalizing c with
  | nil => exact ⟨_, _, rfl⟩
  | cons cleanup rest ih =>
      obtain ⟨queue, histories, hrest⟩ := ih (c.withdrawn cleanup)
      refine ⟨queue, histories, hrest.trans ?_⟩
      rw [withdrawn]
      split <;> rfl

theorem pendingWithdrawn_eq (c : Cluster) :
    ∃ entries, c.pendingWithdrawn a deployId = { c with pending := entries } := by
  rw [pendingWithdrawn]
  split
  · split
    · exact ⟨_, rfl⟩
    · exact ⟨_, rfl⟩
  · exact ⟨_, rfl⟩

/-- Calling off a bounce writes to three parts of the cluster. -/
theorem calledOff_eq (c : Cluster) : ∃ queue histories entries,
    c.calledOff s a deployId message =
      { c with taskCleanups := queue, taskHistories := histories, pending := entries } := by
  obtain ⟨queue, histories, hfold⟩ := foldl_withdrawn_eq (c.taskCleanups.filter (Poll.caused a)) c
  obtain ⟨entries, hpending⟩ := pendingWithdrawn_eq a deployId
    { c with taskCleanups := queue, taskHistories := histories }
  refine ⟨queue, histories, entries ++ [Poll.cancellation s a deployId message], ?_⟩
  rw [calledOff, hfold, hpending]
  rfl

/-- From one cluster to the next a task loses a cleanup that an action caused, and has none of any
kind left. -/
def RunsOut (a : Action) (c c' : Cluster) (t : Task.Id) : Prop :=
  (∃ cleanup ∈ c.taskCleanups, cleanup.taskId = t ∧ Poll.caused a cleanup = true) ∧
    ∀ cleanup ∈ c'.taskCleanups, cleanup.taskId ≠ t

instance (c c' : Cluster) (t : Task.Id) : Decidable (RunsOut a c c' t) :=
  inferInstanceAs (Decidable (_ ∧ _))

theorem runsOut_calledOff_iff (c : Cluster) (t : Task.Id) :
    RunsOut a c (c.calledOff s a deployId message) t ↔
      c.Queued t ∧ ¬ (c.calledOff s a deployId message).Queued t := by
  rw [RunsOut, Queued, Queued, calledOff_taskCleanups]
  constructor
  · rintro ⟨⟨cleanup, hmem, ht, -⟩, hnone⟩
    refine ⟨⟨cleanup, hmem, ht⟩, ?_⟩
    rintro ⟨other, hother, ht'⟩
    exact hnone other hother ht'
  · rintro ⟨⟨cleanup, hmem, ht⟩, hnone⟩
    refine ⟨⟨cleanup, hmem, ht, ?_⟩, fun other hother ht' => hnone ⟨other, hother, ht'⟩⟩
    -- it would still be queued if the bounce had not caused it
    by_contra hcaused
    exact hnone ⟨cleanup, List.mem_filter.mpr ⟨hmem, by simpa using hcaused⟩, ht⟩

/-- A history is cut back if it is the one that counts for its task, the task runs out of cleanups, and
cleaning is the last that it was seen at. -/
theorem getElem?_calledOff_taskHistories (c : Cluster) (i : Nat) :
    (c.calledOff s a deployId message).taskHistories[i]? = c.taskHistories[i]?.map fun h =>
      if c.taskHistories.findIdx? (fun g => g.taskId = h.taskId) = some i ∧
          RunsOut a c (c.calledOff s a deployId message) h.taskId ∧ h.EndsCleaning then
        h.cleaned
      else h := by
  obtain ⟨ts, hts, hmem, hback⟩ := (Rolled.calledOff s a deployId message c).back
  rw [hback, Task.History.getElem?_foldl_rollBack _ hts]
  cases c.taskHistories[i]? with
  | none => rfl
  | some h =>
      refine congrArg some ?_
      dsimp only
      rw [Task.History.rolledBack_eq, ← ite_and]
      refine if_congr (and_assoc.trans (and_congr_right fun _ => and_congr_left fun _ => ?_)) rfl rfl
      rw [hmem, runsOut_calledOff_iff]

end Cluster

namespace Poll

variable {s : Conditions}

/-- **CLEANUPS AND HISTORIES**: when a due bounce is undone without failures, the queue of cleanups
loses what the bounce caused and nothing else, and keeps its order; a history loses its updates of
cleaning, and no others, exactly if it is the one that counts for its task, the task runs out of
cleanups, and cleaning is the last that it was seen at.  All other histories stay as they are, and so
does every other part of the cluster but the pending queue. -/
theorem visit_withdraws_tasks (hs : s.Reliable) {a : Action} {deployId : String}
    (hundo : a.undo = .bounce deployId) {lifetime : UInt64}
    (hdue : a.standing s.now s.config = .due lifetime) (t : Tally) (w : World)
    (hpresent : w.cluster.requests.contains a.requestId = true) :
    let c := w.cluster
    let c' := (after (visit s a t) w).cluster
    c'.taskCleanups = c.taskCleanups.filter (fun cleanup =>
        !(cleanup.taskId.requestId = a.requestId && cleanup.actionId = some a.actionId)) ∧
      (∀ i : Nat, c'.taskHistories[i]? = c.taskHistories[i]?.map fun h =>
        if c.taskHistories.findIdx? (fun g => g.taskId = h.taskId) = some i ∧
            Cluster.RunsOut a c c' h.taskId ∧ h.EndsCleaning then
          { h with
            updates := h.updates.filter (·.state ≠ .cleaning)
            latest := (Task.Update.sort h.updates).dropLast.getLast? }
        else h) ∧
      c' = { c with
        taskCleanups := c'.taskCleanups
        taskHistories := c'.taskHistories
        pending := c'.pending } := by
  intro c c'
  have hoff : c' = c.calledOff s a deployId (a.expiryMessage lifetime) :=
    visit_calls_off hs hundo hdue t hpresent
  rw [hoff]
  refine ⟨?_, ?_, ?_⟩
  · exact Cluster.calledOff_taskCleanups s a deployId (a.expiryMessage lifetime) c
  · exact Cluster.getElem?_calledOff_taskHistories s a deployId (a.expiryMessage lifetime) c
  · obtain ⟨queue, histories, entries, heq⟩ :=
      Cluster.calledOff_eq s a deployId (a.expiryMessage lifetime) c
    rw [heq]

/-! Two tasks whose ids read alike: the bounce caused two equal cleanups of the first and one of the
second, which a newer bounce has ordered to be cleaned up as well. -/

/-- Both ids read `web-d1-2-3-4-host`. -/
def firstTask : Task.Id := ⟨"web", "d1", 2, 3, "4-host"⟩

def secondTask : Task.Id := ⟨"web", "d1-2", 3, 4, "host"⟩

/-- A history that ends in cleaning. -/
def cleaningHistory (t : Task.Id) : Task.History where
  taskId := t
  updates := [⟨t, .cleaning, 20, none⟩, ⟨t, .running, 10, none⟩]
  latest := some ⟨t, .running, 10, none⟩

/-- Both tasks are being cleaned up. -/
def cleanedAlike : World where
  store := Store.save .empty webBounce
  cluster.requests := OrderedMap.empty.insert "web" ⟨{ id := "web", instances := 3 }, .active⟩
  cluster.taskCleanups :=
    [⟨firstTask, "alice", 20, none, some "b-1"⟩, ⟨secondTask, "bob", 20, none, some "b-2"⟩,
      ⟨firstTask, "alice", 20, none, some "b-1"⟩, ⟨secondTask, "alice", 20, none, some "b-1"⟩]
  cluster.taskHistories := [cleaningHistory secondTask, cleaningHistory firstTask]

theorem visit_withdraws_tasks_cleanedAlike :
    let c' := (after (visit (.calm 10000) webBounce { kind := .bounce }) cleanedAlike).cluster
    firstTask.text = secondTask.text ∧
      c'.taskCleanups = [⟨secondTask, "bob", 20, none, some "b-2"⟩] ∧
      c'.taskHistories[0]? = some (cleaningHistory secondTask) ∧
      c'.taskHistories[1]? = some
        { cleaningHistory firstTask with updates := [⟨firstTask, .running, 10, none⟩] } := by
  have h := visit_withdraws_tasks (Conditions.reliable_calm 10000) (a := webBounce) rfl rfl
    { kind := .bounce } cleanedAlike (by decide +kernel)
  refine ⟨by decide +kernel, h.1.trans (by decide +kernel), (h.2.1 0).trans ?_, (h.2.1 1).trans ?_⟩
  · decide +kernel
  · decide +kernel

end Poll

end Lapse
