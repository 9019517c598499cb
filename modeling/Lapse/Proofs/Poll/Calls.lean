import Lapse.Proofs.Poll.Schedule

/-!
# The calls of a revert

The trace of a world only grows, by the calls that are made.  Every call of a revert names the
request whose revert makes it and asks something else than the poll itself asks, so that a failed
call in the trace tells on its own whether it cut a pass short or only a revert.
-/

namespace Lapse.Poll

open World (say)

variable {s : Conditions} {α β : Type}

/-- Only calls that satisfy a test were made between two worlds. -/
def Asked (P : Call → Prop) (w w' : World) : Prop :=
  ∃ made, w'.trace = w.trace ++ made ∧ ∀ m ∈ made, P m.call

namespace Asked

variable {P : Call → Prop} {w w₁ w₂ : World}

theorem trans (h : Asked P w w₁) (h' : Asked P w₁ w₂) : Asked P w w₂ := by
  obtain ⟨made, htrace, hmade⟩ := h
  obtain ⟨made', htrace', hmade'⟩ := h'
  refine ⟨made ++ made', by rw [htrace', htrace, List.append_assoc], fun m hm => ?_⟩
  exact (List.mem_append.mp hm).elim (hmade m) (hmade' m)

theorem note {c : Call} (hc : P c) (w : World) (fault : Option Fault) :
    Asked P w (w.note c fault) := by
  refine ⟨[⟨c, fault⟩], rfl, fun m hm => ?_⟩
  rw [List.mem_singleton.mp hm]
  exact hc

/-- A computation that makes no call. -/
theorem silent {act : StateM World α} (h : ∀ w, (after act w).trace = w.trace) :
    Keeps (Asked P) act :=
  fun w => ⟨[], (h w).trans (List.append_nil w.trace).symm, List.forall_mem_nil _⟩

theorem bind {x : Step α} {f : α → Step β} (hx : Keeps (Asked P) x.run)
    (hf : ∀ a, Keeps (Asked P) (f a).run) : Keeps (Asked P) (x >>= f).run := by
  intro w
  cases h : answer x.run w with
  | ok a =>
      rw [after_step_bind_ok h]
      exact (hx w).trans (hf a _)
  | error why =>
      rw [after_step_bind_error h]
      exact hx w

theorem caught {x : Step α} {f : Failure → Step α} (hx : Keeps (Asked P) x.run)
    (hf : ∀ why, Keeps (Asked P) (f why).run) : Keeps (Asked P) (tryCatch x f).run := by
  intro w
  rw [after_step_catch]
  cases answer x.run w with
  | ok a => exact hx w
  | error why => exact (hx w).trans (hf why _)

theorem pure (a : α) : Keeps (Asked P) (Pure.pure a : Step α).run := silent fun _ => rfl

theorem say (level : Level) (message : String) :
    Keeps (Asked P) (liftM (World.say level message) : Step Unit).run := silent fun _ => rfl

theorem call {during : Option String} {op : Operation} (hc : P ⟨during, op⟩) {act : Step α}
    (hact : Keeps (Asked P) act.run) : Keeps (Asked P) (call s during op act).run := by
  intro w
  rcases run_call s during op (w := w) with ⟨why, -, hfails⟩ | ⟨-, hrun⟩
  · rw [(hfails act).2]
    exact note hc w _
  · rw [(hrun act).2]
    exact (note hc w _).trans (hact _)

/-- A call whose work makes no further call. -/
theorem only {during : Option String} {op : Operation} (hc : P ⟨during, op⟩) {act : Step α}
    (hact : ∀ w, (after act.run w).trace = w.trace) : Keeps (Asked P) (Poll.call s during op act).run :=
  call hc (silent hact)

theorem tryChange {during : Option String} {op : Operation} (hc : P ⟨during, op⟩)
    (f : Cluster → Except Failure Cluster) :
    Keeps (Asked P) (Poll.call s during op (tryChange f)).run := by
  refine only hc fun w => ?_
  cases hf : f w.cluster with
  | ok c => rw [(run_tryChange_ok hf).2]
  | error why => rw [(run_tryChange_error hf).2]

theorem createCleanup {during : String} {cleanup : Request.Cleanup}
    (hc : P ⟨during, .createCleanup cleanup⟩) :
    Keeps (Asked P) (createCleanup s during cleanup).run := by
  unfold Poll.createCleanup
  refine bind (fun w => note hc w _) fun fault => ?_
  split
  · exact silent fun _ => rfl
  · exact pure _
  · refine silent fun w => ?_
    rw [after_step_bind_ok (a := w.cluster) rfl]
    show (after (_ : Step Creation).run w).trace = w.trace
    rcases w.cluster.createCleanup cleanup with ⟨creation, c⟩
    cases creation with
    | existed => rfl
    | created => rfl

end Asked

/-- A call of the revert for a request, which asks nothing that the poll itself asks. -/
def Call.Within (r : String) (c : Call) : Prop := c.during = some r ∧ c.operation.isOwn = false

section Revert

variable (s) (a : Action)

theorem withdrawCleanup_asks (cleanup : Task.Cleanup) :
    Keeps (Asked (Call.Within a.requestId)) (withdrawCleanup s a cleanup).run := by
  unfold withdrawCleanup
  refine .bind (.say _ _) fun _ => ?_
  refine .bind (.only ⟨rfl, rfl⟩ fun _ => rfl) fun _ => ?_
  refine .bind (.only ⟨rfl, rfl⟩ fun _ => rfl) fun found => ?_
  cases found with
  | some _ => exact .pure ()
  | none =>
      refine .bind (.say _ _) fun _ => ?_
      refine .bind (.only ⟨rfl, rfl⟩ fun _ => rfl) fun updates => ?_
      split
      · exact .pure ()
      · split
        · exact .only ⟨rfl, rfl⟩ fun _ => rfl
        · exact .pure ()

theorem withdrawCleanups_asks (cleanups : List Task.Cleanup) :
    Keeps (Asked (Call.Within a.requestId)) (withdrawCleanups s a cleanups).run := by
  induction cleanups with
  | nil => exact .pure ()
  | cons cleanup rest ih => exact .bind (withdrawCleanup_asks s a cleanup) fun _ => ih

theorem revertBounce_asks (deployId message : String) :
    Keeps (Asked (Call.Within a.requestId)) (revertBounce s a deployId message).run := by
  unfold revertBounce
  have queued : Keeps (Asked (Call.Within a.requestId)) (do
      enqueue s a.requestId (cancellation s a deployId message)
      return Outcome.applied : Step Outcome).run :=
    .bind (.only ⟨rfl, rfl⟩ fun _ => rfl) fun _ => .pure _
  refine .bind (.only ⟨rfl, rfl⟩ fun _ => rfl) fun cleanups => ?_
  refine .bind (withdrawCleanups_asks s a _) fun _ => ?_
  refine .bind (.only ⟨rfl, rfl⟩ fun _ => rfl) fun found => ?_
  cases found with
  | none => exact queued
  | some entry =>
      dsimp only
      split
      · refine .bind (.say _ _) fun _ => ?_
        exact .bind (.only ⟨rfl, rfl⟩ fun _ => rfl) fun _ => queued
      · exact queued

theorem revertPause_asks (entry : Request.Entry) (message : String) :
    Keeps (Asked (Call.Within a.requestId)) (revertPause s a entry message).run := by
  unfold revertPause
  split
  · refine .bind (.say _ _) fun _ => ?_
    exact .bind (.tryChange ⟨rfl, rfl⟩ _) fun _ => .pure _
  · exact .pure _

theorem bounceAfterScale_asks (old new : Request) :
    Keeps (Asked (Call.Within a.requestId)) (bounceAfterScale s a old new).run := by
  unfold bounceAfterScale
  refine .bind (.say _ _) fun _ => ?_
  refine .bind (.only ⟨rfl, rfl⟩ fun _ => rfl) fun deploy => ?_
  cases deploy with
  | none => exact .say _ _
  | some deployId =>
      refine .bind (.silent fun _ => rfl) fun _ => ?_
      refine .bind (.createCleanup ⟨rfl, rfl⟩) fun creation => ?_
      cases creation with
      | existed => exact .say _ _
      | created =>
          refine .caught ?_ fun why => ?_
          · refine .bind (.only ⟨rfl, rfl⟩ fun _ => rfl) fun _ => ?_
            exact .only ⟨rfl, rfl⟩ fun _ => rfl
          · exact .bind (.say _ _) fun _ => .silent fun _ => rfl

theorem revertScale_asks (entry : Request.Entry) (instances : UInt32) (message : String) :
    Keeps (Asked (Call.Within a.requestId)) (revertScale s a entry instances message).run := by
  unfold revertScale
  have notified : ∀ new : Request, Keeps (Asked (Call.Within a.requestId)) (do
      notifyScaled s a.requestId new entry.request.instances a.user
      return Outcome.applied : Step Outcome).run :=
    fun new => .bind (.only ⟨rfl, rfl⟩ fun _ => rfl) fun _ => .pure _
  refine .bind (.tryChange ⟨rfl, rfl⟩ _) fun _ => ?_
  dsimp only
  split
  · exact .bind (bounceAfterScale_asks s a _ _) fun _ => notified _
  · exact notified _

/-- **CALLS**: a revert makes calls of its own only. -/
theorem revert_asks (entry : Request.Entry) (message : String) :
    Keeps (Asked (Call.Within a.requestId)) (revert s a entry message).run := by
  unfold revert
  split
  · exact revertBounce_asks s a _ message
  · exact revertPause_asks s a entry message
  · exact revertScale_asks s a entry _ message
  · exact .bind (.tryChange ⟨rfl, rfl⟩ _) fun _ => .pure _

end Revert

end Lapse.Poll
