import Lapse.Poll.Revert
import Lapse.Proofs.Poll.Step

/-!
# What reverts may change

Calling off a bounce, the bounce after a scale, and the reverts as a whole each make a few kinds of
change and no others, all of them to what belongs to the request that the action is for.  A
relation that allows those changes is kept by the revert, for every world and every pattern of
faults.  The frames below list the changes; a property of polls names the frame that its relation
is.
-/

namespace Lapse.Action

variable {a : Action}

theorem kind_eq_bounce_iff : a.kind = .bounce ↔ ∃ deployId, a.undo = .bounce deployId := by
  rw [kind]
  cases a.undo <;> simp [Undo.kind]

theorem kind_eq_scale_iff : a.kind = .scale ↔ ∃ n, a.undo = .scale n := by
  rw [kind]
  cases a.undo <;> simp [Undo.kind]

end Lapse.Action

namespace Lapse.Poll

variable {s : Conditions} {R : World → World → Prop}

/-- A relation that allows what calling off the bounce of an action changes. -/
structure CallOffFrame (s : Conditions) (a : Action) (R : World → World → Prop) : Prop
    extends Frame R where
  cleanupRemoved : ∀ (w : World) cleanup, caused a cleanup = true →
    R w { w with cluster := w.cluster.removeTaskCleanup cleanup }
  updatesRemoved : ∀ (w : World) taskId state latest, taskId.requestId = a.requestId →
    R w { w with cluster := w.cluster.removeTaskUpdates taskId state latest }
  pendingRemoved : ∀ (w : World) entry, entry.requestId = a.requestId →
    R w { w with cluster := w.cluster.removePending entry }
  enqueued : ∀ (w : World) deployId message,
    R w { w with cluster := w.cluster.enqueue (cancellation s a deployId message) }

/-- A relation that allows what the bounce after the scale of an action changes. -/
structure CascadeFrame (s : Conditions) (a : Action) (old : Request) (R : World → World → Prop) :
    Prop extends Frame R where
  cleanupCreated : ∀ (w : World) deployId message id, R w { w with
    cluster := (w.cluster.createCleanup (cascadeCleanup s a old.id deployId message id)).2 }
  bounced : ∀ (w : World) message,
    R w { w with cluster := w.cluster.bounce s.wall old a.user (some message) }
  stored : ∀ (w : World) during deployId id fault, (∀ why, fault ≠ some (.fails why)) →
    R w { w.note ⟨during, .saveAction (cascadeAction s a old.id deployId id)⟩ fault with
      store := w.store.save (cascadeAction s a old.id deployId id) }

/-- A relation that allows what ending a pause and restoring a field of a request change. -/
structure RestoreFrame (s : Conditions) (a : Action) (entry : Request.Entry)
    (R : World → World → Prop) : Prop extends Frame R where
  updated : ∀ (w : World) c new event message, new.id = entry.request.id →
    event ≠ some .bounced →
    w.cluster.updateRequest s.wall new entry.state event a.user none (some message) = .ok c →
      R w { w with cluster := c }
  unpaused : ∀ (w : World) c message,
    w.cluster.unpause s.wall entry.request a.user (some message) none = .ok c →
      R w { w with cluster := c }
  notified : ∀ (w : World) request oldInstances, request.id = entry.request.id →
    R w { w with cluster := w.cluster.notifyScaled s.wall request oldInstances a.user }

/-- A relation that allows every change that undoing an action against an entry makes. -/
structure RevertFrame (s : Conditions) (a : Action) (entry : Request.Entry)
    (R : World → World → Prop) : Prop
    extends CallOffFrame s a R, CascadeFrame s a entry.request R, RestoreFrame s a entry R

/-! ## Calling off a bounce -/

namespace CallOffFrame

variable {a : Action} (hR : CallOffFrame s a R)

include hR

theorem withdrawCleanup {cleanup : Task.Cleanup} (h : caused a cleanup = true) :
    Keeps R (withdrawCleanup s a cleanup).run := by
  have hr : cleanup.taskId.requestId = a.requestId := by
    rw [caused, Bool.and_eq_true, decide_eq_true_eq] at h
    exact h.1
  unfold Poll.withdrawCleanup
  refine hR.step_bind (Frame.lift (hR.say _ _)) fun _ => ?_
  refine hR.step_bind (hR.change (fun _ => rfl) fun w => hR.cleanupRemoved w cleanup h) fun _ => ?_
  refine hR.step_bind (hR.read fun _ => rfl) fun found => ?_
  cases found with
  | some _ => exact hR.step_pure ()
  | none =>
      refine hR.step_bind (Frame.lift (hR.say _ _)) fun _ => ?_
      refine hR.step_bind (hR.read fun _ => rfl) fun updates => ?_
      split
      · exact hR.step_pure ()
      · split
        · exact hR.change (fun _ => rfl) fun w => hR.updatesRemoved w _ _ _ hr
        · exact hR.step_pure ()

theorem withdrawCleanups {cleanups : List Task.Cleanup}
    (h : ∀ cleanup ∈ cleanups, caused a cleanup = true) :
    Keeps R (withdrawCleanups s a cleanups).run := by
  induction cleanups with
  | nil => exact hR.step_pure ()
  | cons cleanup rest ih =>
      refine hR.step_bind (hR.withdrawCleanup (h cleanup List.mem_cons_self)) fun _ => ?_
      exact ih fun other hother => h other (List.mem_cons_of_mem cleanup hother)

theorem revertBounce (deployId message : String) :
    Keeps R (revertBounce s a deployId message).run := by
  unfold Poll.revertBounce
  have queued : Keeps R (do
      enqueue s a.requestId (cancellation s a deployId message)
      return Outcome.applied : Step Outcome).run :=
    hR.step_bind (hR.change (fun _ => rfl) fun w => hR.enqueued w _ _) fun _ => hR.step_pure _
  refine hR.step_bind (hR.read fun _ => rfl) fun cleanups => ?_
  refine hR.step_bind (hR.withdrawCleanups fun _ hc => (List.mem_filter.mp hc).2) fun _ => ?_
  -- the entry that is looked up is one of the request
  refine hR.step_bind_of (hR.read fun _ => rfl) fun w found hfound => ?_
  cases found with
  | none => exact queued _
  | some entry =>
      have hentry : entry.requestId = a.requestId := by
        have htest := List.find?_some (answer_read hfound).symm
        rw [Bool.and_eq_true, decide_eq_true_eq] at htest
        exact htest.1
      dsimp only
      split
      · refine hR.step_bind (Frame.lift (hR.say _ _)) (fun _ => ?_) _
        refine hR.step_bind (hR.change (fun _ => rfl) fun w => hR.pendingRemoved w entry hentry) ?_
        exact fun _ => queued
      · exact queued _

end CallOffFrame

/-! ## The bounce after a scale -/

theorem Frame.createCleanup (hR : Frame R) {cleanup : Request.Cleanup}
    (h : ∀ w : World, R w { w with cluster := (w.cluster.createCleanup cleanup).2 })
    (during : String) : Keeps R (createCleanup s during cleanup).run := by
  unfold Poll.createCleanup
  refine hR.step_bind (Frame.lift fun w => hR.noted w _ _ rfl) fun fault => ?_
  split
  · exact hR.throw _
  · exact hR.step_pure _
  · intro w
    rw [after_step_bind_ok (a := w.cluster) rfl]
    show R w (after (_ : Step Creation).run w)
    have created : R w { w with cluster := (w.cluster.createCleanup cleanup).2 } := h w
    rcases hc : w.cluster.createCleanup cleanup with ⟨creation, c⟩
    rw [hc] at created
    cases creation with
    | existed => exact created
    | created => exact hR.trans created (hR.minted _ _ (Nat.le_succ _))

namespace CascadeFrame

variable {a : Action} {old : Request} (hR : CascadeFrame s a old R)

include hR

theorem saveAction (during deployId id : String) :
    Keeps R (saveAction s during (cascadeAction s a old.id deployId id)).run := by
  intro w
  unfold Poll.saveAction
  rcases run_call s (some during) (.saveAction (cascadeAction s a old.id deployId id)) (w := w)
    with ⟨why, -, hfails⟩ | ⟨hok, hrun⟩
  · rw [(hfails _).2]
    exact hR.noted w _ _ rfl
  · rw [(hrun _).2]
    exact hR.stored w (some during) deployId id _ hok

theorem bounceAfterScale {new : Request} (hid : new.id = old.id) :
    Keeps R (bounceAfterScale s a old new).run := by
  unfold Poll.bounceAfterScale
  rw [hid]
  refine hR.step_bind (Frame.lift (hR.say _ _)) fun _ => ?_
  refine hR.step_bind (hR.read fun _ => rfl) fun deploy => ?_
  cases deploy with
  | none => exact Frame.lift (hR.say _ _)
  | some deployId =>
      refine hR.step_bind hR.get fun _ => ?_
      have hcreated := fun w => hR.cleanupCreated w deployId
      refine hR.step_bind (hR.toFrame.createCleanup (fun w => hcreated w _ _) _) fun creation => ?_
      cases creation with
      | existed => exact Frame.lift (hR.say _ _)
      | created =>
          refine hR.step_catch ?_ fun why => ?_
          · refine hR.step_bind (hR.change (fun _ => rfl) fun w => hR.bounced w _) fun _ => ?_
            exact hR.saveAction a.requestId deployId _
          · exact hR.step_bind (Frame.lift (hR.say _ _)) fun _ => hR.throw why

end CascadeFrame

/-! ## Reverts -/

/-- The end of the revert of a scale. -/
theorem Frame.notifyScaled (hR : Frame R) (request : Request) (oldInstances : UInt32)
    (user : String)
    (h : ∀ w : World,
      R w { w with cluster := w.cluster.notifyScaled s.wall request oldInstances user })
    (during : String) : Keeps R (do
      Poll.notifyScaled s during request oldInstances user
      return Outcome.applied : Step Outcome).run := by
  refine hR.step_bind (hR.call (fun _ => rfl) ?_) fun _ => hR.step_pure _
  exact hR.step_bind (Frame.lift (hR.say _ _)) fun _ w => h w

theorem Frame.revertPause (hR : Frame R) {a : Action} {entry : Request.Entry} {message : String}
    (h : ∀ (w : World) c,
      w.cluster.unpause s.wall entry.request a.user (some message) none = .ok c →
        R w { w with cluster := c }) :
    Keeps R (revertPause s a entry message).run := by
  unfold Poll.revertPause
  split
  · refine hR.step_bind (Frame.lift (hR.say _ _)) fun _ => ?_
    exact hR.step_bind (hR.tryChange (fun _ => rfl) h) fun _ => hR.step_pure _
  · exact hR.step_pure _

theorem Frame.revertSkipHealthchecks (hR : Frame R) {a : Action} {entry : Request.Entry}
    {flag : Option Bool} {message : String}
    (h : ∀ (w : World) c,
      w.cluster.updateRequest s.wall { entry.request with skipHealthchecks := flag } entry.state
        none a.user none (some message) = .ok c → R w { w with cluster := c }) :
    Keeps R (revertSkipHealthchecks s a entry flag message).run := by
  unfold Poll.revertSkipHealthchecks
  exact hR.step_bind (hR.tryChange (fun _ => rfl) h) fun _ => hR.step_pure _

namespace RestoreFrame

variable {a : Action} {entry : Request.Entry} (hR : RestoreFrame s a entry R)

include hR

theorem revertPause (message : String) : Keeps R (revertPause s a entry message).run :=
  hR.toFrame.revertPause fun w c => hR.unpaused w c message

theorem revertScale (hC : CascadeFrame s a entry.request R) (instances : UInt32)
    (message : String) : Keeps R (revertScale s a entry instances message).run := by
  unfold Poll.revertScale
  have notified := hR.toFrame.notifyScaled { entry.request with instances }
    entry.request.instances a.user (fun w => hR.notified w _ _ rfl) a.requestId
  refine hR.step_bind (hR.tryChange (fun _ => rfl) fun w c => ?_) fun _ => ?_
  · exact hR.updated w c { entry.request with instances } _ message rfl (by decide)
  · dsimp only
    split
    · refine hR.step_bind ?_ fun _ => notified
      apply hC.bounceAfterScale
      rfl
    · exact notified

theorem revertSkipHealthchecks (flag : Option Bool) (message : String) :
    Keeps R (revertSkipHealthchecks s a entry flag message).run := by
  refine hR.toFrame.revertSkipHealthchecks fun w c => ?_
  exact hR.updated w c { entry.request with skipHealthchecks := flag } none message rfl (by decide)

end RestoreFrame

/-- **FOOTPRINT**: a revert moves the world along every relation that allows its changes. -/
theorem RevertFrame.revert {a : Action} {entry : Request.Entry} (hR : RevertFrame s a entry R)
    (message : String) : Keeps R (revert s a entry message).run := by
  unfold Poll.revert
  split
  · exact hR.toCallOffFrame.revertBounce _ message
  · exact hR.toRestoreFrame.revertPause message
  · exact hR.toRestoreFrame.revertScale hR.toCascadeFrame _ message
  · exact hR.toRestoreFrame.revertSkipHealthchecks _ message

end Lapse.Poll
