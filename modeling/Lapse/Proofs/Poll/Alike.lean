import Lapse.Proofs.Action
import Lapse.Proofs.Poll.Alone
import Lapse.Proofs.Poll.Lockstep
import Mathlib.Data.List.Forall2

/-!
# Shares up to stamps and names

Two runs stamp what they make with what their wall clocks show, and give a bounce after a scale the
id that is next in their supply.  Apart from that the share of a request is the same in both: every
entry is equal, or made in the same way from the two stamps or the two ids.  The reverts for a
request keep it so, when no call of them meets a fault and the id that is next is new.
-/

namespace Lapse

variable {α β γ : Type}

/-- Equal, or made in the same way from two values. -/
def Swapped (put : γ → β → α) (g₁ g₂ : γ) (x y : α) : Prop :=
  x = y ∨ ∃ z, x = put g₁ z ∧ y = put g₂ z

def Request.Pending.stamped (wall : Int64) (p : Request.Pending) : Request.Pending :=
  { p with timestamp := wall }

def Request.Record.stamped (wall : Int64) (record : Request.Record) : Request.Record :=
  { record with timestamp := wall }

def Notification.stamped (wall : Int64) (n : Notification) : Notification :=
  { n with timestamp := wall }

def Request.Cleanup.named (id : String) (cleanup : Request.Cleanup) : Request.Cleanup :=
  { cleanup with actionId := some id }

def Action.named (id : String) (a : Action) : Action := { a with actionId := id }

/-- A list is its own, up to swaps, and stays so when swapped entries are appended. -/
theorem Swapped.refl_list (put : γ → β → α) (g₁ g₂ : γ) (l : List α) :
    List.Forall₂ (Swapped put g₁ g₂) l l := List.forall₂_same.mpr fun _ _ => .inl rfl

theorem Swapped.concat {put : γ → β → α} {g₁ g₂ : γ} {l₁ l₂ : List α}
    (h : List.Forall₂ (Swapped put g₁ g₂) l₁ l₂) (z : β) :
    List.Forall₂ (Swapped put g₁ g₂) (l₁ ++ [put g₁ z]) (l₂ ++ [put g₂ z]) :=
  List.rel_append h (.cons (.inr ⟨z, rfl, rfl⟩) .nil)

namespace Cluster

/-- Two clusters are equal up to stamps and to the name of one bounce. -/
structure Alike (wall₁ wall₂ : Int64) (id₁ id₂ : String) (c₁ c₂ : Cluster) : Prop where
  requests : c₁.requests = c₂.requests
  inUseDeploys : c₁.inUseDeploys = c₂.inUseDeploys
  taskCleanups : c₁.taskCleanups = c₂.taskCleanups
  taskHistories : c₁.taskHistories = c₂.taskHistories
  pending : List.Forall₂ (Swapped Request.Pending.stamped wall₁ wall₂) c₁.pending c₂.pending
  requestCleanups :
    List.Forall₂ (Swapped Request.Cleanup.named id₁ id₂) c₁.requestCleanups c₂.requestCleanups
  requestHistory :
    List.Forall₂ (Swapped Request.Record.stamped wall₁ wall₂) c₁.requestHistory c₂.requestHistory
  notifications :
    List.Forall₂ (Swapped Notification.stamped wall₁ wall₂) c₁.notifications c₂.notifications

namespace Alike

variable {wall₁ wall₂ : Int64} {id₁ id₂ : String} {c₁ c₂ : Cluster}

theorem refl (c : Cluster) : Alike wall₁ wall₂ id₁ id₂ c c where
  requests := rfl
  inUseDeploys := rfl
  taskCleanups := rfl
  taskHistories := rfl
  pending := Swapped.refl_list _ _ _ _
  requestCleanups := Swapped.refl_list _ _ _ _
  requestHistory := Swapped.refl_list _ _ _ _
  notifications := Swapped.refl_list _ _ _ _

variable (h : Alike wall₁ wall₂ id₁ id₂ c₁ c₂)

include h

theorem insert (r : String) (entry : Request.Entry) :
    Alike wall₁ wall₂ id₁ id₂ { c₁ with requests := c₁.requests.insert r entry }
      { c₂ with requests := c₂.requests.insert r entry } :=
  { h with requests := congrArg (fun m => OrderedMap.insert m r entry) h.requests }

theorem record (request : Request) (event : Request.Event) (user : String)
    (message : Option String) :
    Alike wall₁ wall₂ id₁ id₂ (c₁.record wall₁ request event user message)
      (c₂.record wall₂ request event user message) := by
  have hmore := Swapped.concat h.requestHistory
    ⟨request.id, event, user, wall₁, request.instances, message⟩
  exact { h with requestHistory := hmore }

theorem notifyScaled (request : Request) (oldInstances : UInt32) (user : String) :
    Alike wall₁ wall₂ id₁ id₂ (c₁.notifyScaled wall₁ request oldInstances user)
      (c₂.notifyScaled wall₂ request oldInstances user) := by
  have hmore := Swapped.concat h.notifications
    ⟨request.id, oldInstances, request.instances, user, wall₁⟩
  exact { h with notifications := hmore }

theorem enqueueForDeploy (r : String) (reason : Request.PendingReason) (user : String)
    (message : Option String) (flag : Option Bool) :
    Alike wall₁ wall₂ id₁ id₂ (c₁.enqueueForDeploy wall₁ r reason user message flag)
      (c₂.enqueueForDeploy wall₂ r reason user message flag) := by
  rw [Cluster.enqueueForDeploy, Cluster.enqueueForDeploy, ← h.inUseDeploys]
  cases c₁.inUseDeploys.get? r with
  | none => exact h
  | some deployId =>
      have hmore := Swapped.concat h.pending
        ⟨r, deployId, wall₁, user, reason, message, none, flag⟩
      dsimp only
      exact { h with inUseDeploys := rfl, pending := hmore }

theorem updateRequest (new : Request) (state : Request.State) (event : Option Request.Event)
    (user : String) (flag : Option Bool) (message : Option String) :
    Poll.Both (Alike wall₁ wall₂ id₁ id₂)
      (c₁.updateRequest wall₁ new state event user flag message)
      (c₂.updateRequest wall₂ new state event user flag message) := by
  rw [Cluster.updateRequest, Cluster.updateRequest, ← h.requests]
  split
  · exact .error _
  · split
    · have hrecorded := (h.insert new.id ⟨new, state⟩).record new (event.getD .updated) user message
      dsimp only
      split
      · exact .ok (h.requests ▸ hrecorded.enqueueForDeploy new.id .updated user message flag)
      · exact .ok (h.requests ▸ hrecorded)
    · exact .error _

theorem unpause (request : Request) (user : String) (message : Option String)
    (flag : Option Bool) :
    Poll.Both (Alike wall₁ wall₂ id₁ id₂) (c₁.unpause wall₁ request user message flag)
      (c₂.unpause wall₂ request user message flag) := by
  rw [Cluster.unpause, Cluster.unpause, ← h.requests]
  cases c₁.requests.get? request.id with
  | none => exact .error _
  | some entry =>
      have hrecorded := (h.insert request.id { entry with state := .active }).record request
        .unpaused user message
      exact .ok (h.requests ▸ hrecorded.enqueueForDeploy request.id .unpaused user message flag)

/-- A cleanup that both clusters do not know is ordered in both. -/
theorem createCleanup (cleanup : Request.Cleanup)
    (hnew₁ : ∀ old ∈ c₁.requestCleanups, old.actionId ≠ some id₁)
    (hnew₂ : ∀ old ∈ c₂.requestCleanups, old.actionId ≠ some id₂) :
    (c₁.createCleanup (cleanup.named id₁)).1 = .created ∧
      (c₂.createCleanup (cleanup.named id₂)).1 = .created ∧
      Alike wall₁ wall₂ id₁ id₂ (c₁.createCleanup (cleanup.named id₁)).2
        (c₂.createCleanup (cleanup.named id₂)).2 := by
  have hcreated : ∀ (c : Cluster) id, (∀ old ∈ c.requestCleanups, old.actionId ≠ some id) →
      c.createCleanup (cleanup.named id) =
        (.created, { c with requestCleanups := c.requestCleanups ++ [cleanup.named id] }) := by
    intro c id hnew
    rw [Cluster.createCleanup, if_neg]
    rw [List.any_eq_true]
    rintro ⟨old, hmem, hold⟩
    rw [Bool.and_eq_true, decide_eq_true_eq, decide_eq_true_eq] at hold
    exact hnew old hmem hold.2
  rw [hcreated c₁ id₁ hnew₁, hcreated c₂ id₂ hnew₂]
  exact ⟨rfl, rfl, { h with requestCleanups := Swapped.concat h.requestCleanups cleanup }⟩

end Alike

end Cluster

namespace Poll

variable {s₁ s₂ : Conditions} {id₁ id₂ r : String} {w₁ w₂ w₁' w₂' : World}

/-- The shares of a request in two worlds are equal up to stamps and to the name of one bounce. -/
structure Alike (s₁ s₂ : Conditions) (id₁ id₂ r : String) (w₁ w₂ : World) : Prop where
  cluster : Cluster.Alike s₁.wall s₂.wall id₁ id₂ (w₁.cluster.only r) (w₂.cluster.only r)
  records : ∀ kind, Swapped (fun id (a : Action) => some (a.named id).encode) id₁ id₂
    (w₁.store.get? (Store.key kind r)) (w₂.store.get? (Store.key kind r))

namespace Alike

theorem of_agree (h : Agree r w₁ w₂) : Alike s₁ s₂ id₁ id₂ r w₁ w₂ :=
  ⟨h.cluster ▸ .refl _, fun kind => .inl (h.records kind).symm⟩

theorem get?_requests (h : Alike s₁ s₂ id₁ id₂ r w₁ w₂) :
    w₁.cluster.requests.get? r = w₂.cluster.requests.get? r := by
  rw [← Cluster.get?_requests_only w₁.cluster, h.cluster.requests, Cluster.get?_requests_only]

theorem get?_inUseDeploys (h : Alike s₁ s₂ id₁ id₂ r w₁ w₂) :
    w₁.cluster.inUseDeploys.get? r = w₂.cluster.inUseDeploys.get? r := by
  rw [← Cluster.get?_inUseDeploys_only w₁.cluster, h.cluster.inUseDeploys,
    Cluster.get?_inUseDeploys_only]

theorem removed (h : Alike s₁ s₂ id₁ id₂ r w₁ w₂) (kind : Kind) :
    Alike s₁ s₂ id₁ id₂ r (w₁.removed kind r) (w₂.removed kind r) := by
  refine ⟨h.cluster, fun kind' => ?_⟩
  show Swapped _ _ _ ((w₁.store.remove kind r).get? _) ((w₂.store.remove kind r).get? _)
  rw [Store.get?_remove, Store.get?_remove]
  split
  · exact .inl rfl
  · exact h.records kind'

theorem healed (h : Alike s₁ s₂ id₁ id₂ r w₁ w₂) (kind : Kind) :
    Alike s₁ s₂ id₁ id₂ r (w₁.healed kind) (w₂.healed kind) := by
  refine ⟨h.cluster, fun kind' => ?_⟩
  show Swapped _ _ _ ((w₁.store.healed kind).get? _) ((w₂.store.healed kind).get? _)
  rw [Store.healed, Store.healed, OrderedMap.get?_filter, OrderedMap.get?_filter]
  rcases h.records kind' with heq | ⟨a, ha₁, ha₂⟩
  · exact .inl (by rw [heq])
  · -- what was made in the two runs reads as an action
    refine .inr ⟨a, ?_, ?_⟩
    · rw [ha₁]
      exact Option.filter_some_pos (by simp [Action.decode_encode])
    · rw [ha₂]
      exact Option.filter_some_pos (by simp [Action.decode_encode])

end Alike

/-! ## Relations of shares -/

/-- A relation that sees only the share of a request. -/
def Local (r : String) (Q : World → World → Prop) : Prop :=
  ∀ ⦃w₁ w₂ w₁' w₂'⦄, Q w₁ w₂ → Agree r w₁ w₁' → Agree r w₂ w₂' → Q w₁' w₂'

namespace Local

theorem blind {Q : World → World → Prop} (hQ : Local r Q) : Blind Q := by
  intro w₁ w₂ w₁' w₂' h h₁ h₂
  have hagree : ∀ {w w'}, Still w w' → Agree r w w' :=
    fun h => ⟨by rw [h.cluster], fun kind => by rw [h.store]⟩
  exact hQ h (hagree h₁) (hagree h₂)

theorem agree : Local r (Agree r) := fun _ _ _ _ h h₁ h₂ => (h₁.symm.trans h).trans h₂

theorem alike : Local r (Alike s₁ s₂ id₁ id₂ r) := by
  intro w₁ w₂ w₁' w₂' h h₁ h₂
  refine ⟨?_, fun kind => ?_⟩
  · rw [h₁.cluster, h₂.cluster]
    exact h.cluster
  · rw [h₁.records kind, h₂.records kind]
    exact h.records kind

end Local

/-! ## Bounces -/

section Bounce

variable (hs₁ : s₁.Favours r) (hs₂ : s₂.Favours r) {a : Action} (ha : a.requestId = r)

include hs₁ hs₂ ha

theorem withdrawCleanup_lockstep {cleanup : Task.Cleanup} (hown : cleanup.taskId.requestId = r) :
    Lockstep (Agree r) (Agree r) (withdrawCleanup s₁ a cleanup) (withdrawCleanup s₂ a cleanup) := by
  subst ha
  unfold withdrawCleanup
  refine (Lockstep.say Local.agree.blind _ _ _).andThen fun _ => ?_
  refine Lockstep.andThen ?_ fun _ => ?_
  · refine Lockstep.change hs₁ hs₂ Local.agree.blind fun w₁ w₂ h => ⟨?_, h.records⟩
    rw [Cluster.only_removeTaskCleanup, h.cluster, Cluster.only_removeTaskCleanup]
  refine Lockstep.read hs₁ hs₂ Local.agree.blind fun w₁ w₂ h => ?_
  rw [← Cluster.taskCleanup?_only w₂.cluster hown, h.cluster, Cluster.taskCleanup?_only _ hown]
  cases w₁.cluster.taskCleanup? cleanup.taskId with
  | some other => exact .pure _
  | none =>
      refine (Lockstep.say Local.agree.blind _ _ _).andThen fun _ => ?_
      refine Lockstep.read hs₁ hs₂ Local.agree.blind fun w₁ w₂ h => ?_
      rw [← Cluster.taskUpdates_only w₂.cluster hown, h.cluster, Cluster.taskUpdates_only _ hown]
      cases (Task.Update.sort (w₁.cluster.taskUpdates cleanup.taskId)).reverse with
      | nil => exact .pure _
      | cons last earlier =>
          dsimp only
          split
          · refine Lockstep.change hs₁ hs₂ Local.agree.blind fun w₁ w₂ h => ⟨?_, h.records⟩
            rw [Cluster.only_removeTaskUpdates _ hown, h.cluster,
              Cluster.only_removeTaskUpdates _ hown]
          · exact .pure _

theorem withdrawCleanups_lockstep {cleanups : List Task.Cleanup}
    (hown : ∀ cleanup ∈ cleanups, cleanup.taskId.requestId = r) :
    Lockstep (Agree r) (Agree r) (withdrawCleanups s₁ a cleanups)
      (withdrawCleanups s₂ a cleanups) := by
  induction cleanups with
  | nil => exact .pure _
  | cons cleanup rest ih =>
      rw [withdrawCleanups, withdrawCleanups]
      refine (withdrawCleanup_lockstep hs₁ hs₂ ha (hown _ List.mem_cons_self)).andThen fun _ => ?_
      exact ih fun cleanup hmem => hown cleanup (List.mem_cons_of_mem _ hmem)

/-- Two runs call off the same bounce. -/
theorem revertBounce_lockstep (hnow : s₁.now = s₂.now) (deployId message : String) :
    Lockstep (Agree r) (Agree r) (revertBounce s₁ a deployId message)
      (revertBounce s₂ a deployId message) := by
  have hwithdraw : ∀ c : Cluster, Lockstep (Agree r) (Agree r)
      (withdrawCleanups s₁ a (c.taskCleanups.filter (caused a)))
      (withdrawCleanups s₂ a (c.taskCleanups.filter (caused a))) := by
    refine fun c => withdrawCleanups_lockstep hs₁ hs₂ ha fun cleanup hmem => ?_
    have hcaused := (List.mem_filter.mp hmem).2
    rw [caused, Bool.and_eq_true, decide_eq_true_eq] at hcaused
    exact hcaused.1.trans ha
  have hcancel : Lockstep (Agree r) (Agree r)
      (enqueue s₁ r (cancellation s₁ a deployId message))
      (enqueue s₂ r (cancellation s₂ a deployId message)) := by
    rw [show cancellation s₂ a deployId message = cancellation s₁ a deployId message by
      rw [cancellation, cancellation, hnow]]
    refine Lockstep.change hs₁ hs₂ Local.agree.blind fun w₁ w₂ h => ⟨?_, h.records⟩
    rw [Cluster.only_enqueue _ (by exact ha), h.cluster, Cluster.only_enqueue _ (by exact ha)]
  subst ha
  unfold revertBounce
  refine Lockstep.read hs₁ hs₂ Local.agree.blind fun w₁ w₂ h => ?_
  rw [← Cluster.caused_only w₂.cluster rfl, h.cluster, Cluster.caused_only _ rfl]
  refine (hwithdraw w₁.cluster).andThen fun _ => ?_
  refine Lockstep.read hs₁ hs₂ Local.agree.blind fun w₁ w₂ h => ?_
  rw [← Cluster.pending?_only w₂.cluster, h.cluster, Cluster.pending?_only]
  have hend := hcancel.andThen fun _ => Lockstep.pure (P := Agree a.requestId) Outcome.applied
  cases w₁.cluster.pending? a.requestId deployId with
  | none => exact hend
  | some entry =>
      dsimp only
      split
      · refine (Lockstep.say Local.agree.blind _ _ _).andThen fun _ => ?_
        refine Lockstep.andThen ?_ fun _ => hend
        refine Lockstep.change hs₁ hs₂ Local.agree.blind fun w₁ w₂ h => ⟨?_, h.records⟩
        rw [Cluster.only_removePending, h.cluster, Cluster.only_removePending]
      · exact hend

end Bounce

/-! ## Pauses and flags -/

/-- A change that is refused or made the same way in the share is so in the cluster. -/
theorem Both.of_only {wall₁ wall₂ : Int64} {x y : Except Failure Cluster}
    (h : Both (Cluster.Alike wall₁ wall₂ id₁ id₂) (x.map (·.only r)) (y.map (·.only r))) :
    Both (fun c₁ c₂ => Cluster.Alike wall₁ wall₂ id₁ id₂ (c₁.only r) (c₂.only r)) x y := by
  cases x with
  | error why =>
      cases y with
      | error why' => cases h with | error _ => exact .error why
      | ok c => exact nomatch h
  | ok c =>
      cases y with
      | error why => exact nomatch h
      | ok c' => cases h with | ok related => exact .ok related

section Revert

variable (hs₁ : s₁.Favours r) (hs₂ : s₂.Favours r)

include hs₁ hs₂

/-- An update keeps every relation that implies that the shares are alike, and that sees of the
cluster besides only the cleanups of requests. -/
theorem updateRequest_lockstep {P : World → World → Prop} (hP : Blind P)
    (halike : ∀ w₁ w₂, P w₁ w₂ → Alike s₁ s₂ id₁ id₂ r w₁ w₂)
    (hchange : ∀ w₁ w₂ c₁ c₂, P w₁ w₂ →
      Cluster.Alike s₁.wall s₂.wall id₁ id₂ (c₁.only r) (c₂.only r) →
      c₁.requestCleanups = w₁.cluster.requestCleanups →
      c₂.requestCleanups = w₂.cluster.requestCleanups →
      P { w₁ with cluster := c₁ } { w₂ with cluster := c₂ })
    {new : Request} (hnew : new.id = r) (state : Request.State) (event : Option Request.Event)
    (user message : String) :
    Lockstep P P (updateRequest s₁ r new state event user message)
      (updateRequest s₂ r new state event user message) := by
  refine Lockstep.tryChange hs₁ hs₂ hP fun w₁ w₂ h => ?_
  have hboth := (halike w₁ w₂ h).cluster.updateRequest new state event user none (some message)
  rw [← Cluster.only_updateRequest _ hnew, ← Cluster.only_updateRequest _ hnew] at hboth
  refine hboth.of_only.imp fun c₁ c₂ h₁ h₂ hc => ?_
  obtain ⟨-, -, more₁, -, rfl⟩ := Cluster.updateRequest_eq_ok h₁
  obtain ⟨-, -, more₂, -, rfl⟩ := Cluster.updateRequest_eq_ok h₂
  exact hchange w₁ w₂ _ _ h hc rfl rfl

variable {a : Action} (ha : a.requestId = r) {entry : Request.Entry} (hid : entry.request.id = r)

include ha hid

theorem revertPause_lockstep (message : String) :
    Lockstep (Alike s₁ s₂ id₁ id₂ r) (Alike s₁ s₂ id₁ id₂ r) (revertPause s₁ a entry message)
      (revertPause s₂ a entry message) := by
  subst ha
  unfold revertPause
  split
  · refine (Lockstep.say Local.alike.blind _ _ _).andThen fun _ => ?_
    refine (Lockstep.tryChange hs₁ hs₂ Local.alike.blind fun w₁ w₂ h => ?_).andThen fun _ => .pure _
    have hboth := h.cluster.unpause entry.request a.user (some message) none
    rw [← Cluster.only_unpause _ hid, ← Cluster.only_unpause _ hid] at hboth
    exact hboth.of_only.imp fun _ _ _ _ hc => ⟨hc, h.records⟩
  · exact .pure _

theorem revertSkipHealthchecks_lockstep (flag : Option Bool) (message : String) :
    Lockstep (Alike s₁ s₂ id₁ id₂ r) (Alike s₁ s₂ id₁ id₂ r)
      (revertSkipHealthchecks s₁ a entry flag message)
      (revertSkipHealthchecks s₂ a entry flag message) := by
  subst ha
  unfold revertSkipHealthchecks
  refine Lockstep.andThen ?_ fun _ => .pure _
  refine updateRequest_lockstep hs₁ hs₂ Local.alike.blind (fun _ _ h => h) ?_ ?_ _ _ _ _
  · exact fun _ _ _ _ h hc _ _ => ⟨hc, h.records⟩
  · exact hid

end Revert

/-! ## Scales -/

/-- The shares are alike, the ids of a bounce after the scale are next, and no cleanup of the
request carries them. -/
structure Ready (s₁ s₂ : Conditions) (m₁ m₂ : Nat) (r : String) (w₁ w₂ : World) : Prop where
  alike : Alike s₁ s₂ (s₁.freshId m₁) (s₂.freshId m₂) r w₁ w₂
  minted₁ : w₁.minted = m₁
  minted₂ : w₂.minted = m₂
  new₁ : ∀ old ∈ (w₁.cluster.only r).requestCleanups, old.actionId ≠ some (s₁.freshId m₁)
  new₂ : ∀ old ∈ (w₂.cluster.only r).requestCleanups, old.actionId ≠ some (s₂.freshId m₂)

section Scale

variable {m₁ m₂ : Nat}

theorem Ready.blind : Blind (Ready s₁ s₂ m₁ m₂ r) := by
  intro w₁ w₂ w₁' w₂' h h₁ h₂
  refine ⟨Local.alike.blind h.alike h₁ h₂, h₁.minted.trans h.minted₁,
    h₂.minted.trans h.minted₂, ?_, ?_⟩
  · rw [h₁.cluster]
    exact h.new₁
  · rw [h₂.cluster]
    exact h.new₂

theorem Ready.changed (h : Ready s₁ s₂ m₁ m₂ r w₁ w₂) {c₁ c₂ : Cluster}
    (hc : Cluster.Alike s₁.wall s₂.wall (s₁.freshId m₁) (s₂.freshId m₂) (c₁.only r) (c₂.only r))
    (h₁ : c₁.requestCleanups = w₁.cluster.requestCleanups)
    (h₂ : c₂.requestCleanups = w₂.cluster.requestCleanups) :
    Ready s₁ s₂ m₁ m₂ r { w₁ with cluster := c₁ } { w₂ with cluster := c₂ } := by
  refine ⟨⟨hc, h.alike.records⟩, h.minted₁, h.minted₂, ?_, ?_⟩
  · have hnew₁ := h.new₁
    rwa [Cluster.only, ← h₁] at hnew₁
  · have hnew₂ := h.new₂
    rwa [Cluster.only, ← h₂] at hnew₂

/-- A bounce after a scale is the same at the same instant, but for its name. -/
theorem cascadeCleanup_named (hnow : s₁.now = s₂.now) (a : Action)
    (r deployId message id id' : String) :
    (cascadeCleanup s₁ a r deployId message id').named id =
      cascadeCleanup s₂ a r deployId message id := by
  rw [cascadeCleanup, cascadeCleanup, hnow]
  rfl

theorem cascadeAction_named (hnow : s₁.now = s₂.now) (a : Action) (r deployId id id' : String) :
    (cascadeAction s₁ a r deployId id').named id = cascadeAction s₂ a r deployId id := by
  rw [cascadeAction, cascadeAction, hnow]
  rfl

variable (hs₁ : s₁.Favours r) (hs₂ : s₂.Favours r)

include hs₁ hs₂

/-- A cleanup of a new name is ordered in both runs. -/
theorem createCleanup_lockstep (cleanup : Request.Cleanup) (hr : cleanup.requestId = r) :
    Lockstep (Ready s₁ s₂ m₁ m₂ r) (Alike s₁ s₂ (s₁.freshId m₁) (s₂.freshId m₂) r)
      (createCleanup s₁ r (cleanup.named (s₁.freshId m₁)))
      (createCleanup s₂ r (cleanup.named (s₂.freshId m₂))) := by
  intro w₁ w₂ h
  obtain ⟨hanswer₁, hcluster₁, hstore₁⟩ := run_createCleanup (w := w₁)
    (hs₁.call w₁.calls (.createCleanup (cleanup.named (s₁.freshId m₁))))
  obtain ⟨hanswer₂, hcluster₂, hstore₂⟩ := run_createCleanup (w := w₂)
    (hs₂.call w₂.calls (.createCleanup (cleanup.named (s₂.freshId m₂))))
  have hcreated := h.alike.cluster.createCleanup cleanup h.new₁ h.new₂
  rw [Cluster.only_createCleanup _ (by exact hr), Cluster.only_createCleanup _ (by exact hr)]
    at hcreated
  obtain ⟨hcreated₁, hcreated₂, hcluster⟩ := hcreated
  refine ⟨?_, ?_, fun kind => ?_⟩
  · rw [hanswer₁, hanswer₂]
    exact congrArg Except.ok (hcreated₁.trans hcreated₂.symm)
  · rw [hcluster₁, hcluster₂]
    exact hcluster
  · rw [hstore₁, hstore₂]
    exact h.alike.records kind

/-- Two runs store an action under two names. -/
theorem saveAction_lockstep (b : Action) :
    Lockstep (Alike s₁ s₂ id₁ id₂ r) (Alike s₁ s₂ id₁ id₂ r) (saveAction s₁ r (b.named id₁))
      (saveAction s₂ r (b.named id₂)) := by
  refine Lockstep.call hs₁ hs₂ Local.alike.blind fun w₁ w₂ h => ⟨rfl, h.cluster, fun kind => ?_⟩
  show Swapped _ _ _ ((w₁.store.save (b.named id₁)).get? _) ((w₂.store.save (b.named id₂)).get? _)
  rw [Store.get?_save, Store.get?_save]
  by_cases hkey : Store.key kind r = Store.key b.kind b.requestId
  · exact .inr ⟨b, if_pos hkey, if_pos hkey⟩
  · exact (if_neg hkey).symm ▸ (if_neg hkey).symm ▸ h.records kind

theorem notifyScaled_lockstep {request : Request} (hid : request.id = r) (oldInstances : UInt32)
    (user : String) :
    Lockstep (Alike s₁ s₂ id₁ id₂ r) (Alike s₁ s₂ id₁ id₂ r)
      (notifyScaled s₁ r request oldInstances user)
      (notifyScaled s₂ r request oldInstances user) := by
  refine Lockstep.call hs₁ hs₂ Local.alike.blind ?_
  refine (Lockstep.say Local.alike.blind _ _ _).andThen fun _ w₁ w₂ h => ⟨rfl, ?_, h.records⟩
  have hnotified := h.cluster.notifyScaled request oldInstances user
  rwa [← Cluster.only_notifyScaled _ hid, ← Cluster.only_notifyScaled _ hid] at hnotified

variable (hnow : s₁.now = s₂.now) {a : Action} (ha : a.requestId = r)

include hnow ha

/-- Two runs bounce a request under two names, or neither does. -/
theorem bounceAfterScale_lockstep {old new : Request} (hold : old.id = r) (hnew : new.id = r) :
    Lockstep (Ready s₁ s₂ m₁ m₂ r) (Alike s₁ s₂ (s₁.freshId m₁) (s₂.freshId m₂) r)
      (bounceAfterScale s₁ a old new) (bounceAfterScale s₂ a old new) := by
  subst ha
  unfold bounceAfterScale
  refine (Lockstep.say Ready.blind _ _ _).bind (fun _ => ?_) fun _ _ => Ready.alike
  refine Lockstep.read hs₁ hs₂ Ready.blind fun w₁ w₂ h => ?_
  rw [hnew, h.alike.get?_inUseDeploys]
  cases w₂.cluster.inUseDeploys.get? a.requestId with
  | none => exact (Lockstep.say Ready.blind _ _ _).mono fun _ _ => Ready.alike
  | some deployId =>
      refine Lockstep.get fun u₁ u₂ hu => ?_
      rw [hu.minted₁, hu.minted₂]
      -- both runs make the same, but for the name
      have hcreate : Lockstep (Ready s₁ s₂ m₁ m₂ a.requestId) _ _ _ :=
        createCleanup_lockstep hs₁ hs₂ (cascadeCleanup s₁ a a.requestId deployId
          ("Bouncing after expiring scale by " ++ a.user) "") rfl
      have hsave : Lockstep (Alike s₁ s₂ (s₁.freshId m₁) (s₂.freshId m₂) a.requestId) _ _ _ :=
        saveAction_lockstep hs₁ hs₂ (cascadeAction s₁ a a.requestId deployId "")
      rw [cascadeCleanup_named (rfl : s₁.now = s₁.now), cascadeCleanup_named hnow] at hcreate
      rw [cascadeAction_named (rfl : s₁.now = s₁.now), cascadeAction_named hnow] at hsave
      dsimp only
      refine Lockstep.andThen hcreate fun creation => ?_
      cases creation with
      | existed => exact Lockstep.say Local.alike.blind _ _ _
      | created =>
          refine Lockstep.caught ?_ fun why => ?_
          · refine Lockstep.andThen ?_ fun _ => hsave
            refine Lockstep.change hs₁ hs₂ Local.alike.blind fun w₁ w₂ h => ⟨?_, h.records⟩
            have hrecorded := h.cluster.record old .bounced a.user
              (some ("Bouncing after expiring scale by " ++ a.user))
            rwa [← Cluster.only_record _ hold, ← Cluster.only_record _ hold] at hrecorded
          · exact (Lockstep.say Local.alike.blind _ _ _).andThen fun _ => .throw why

variable {entry : Request.Entry} (hid : entry.request.id = r)

include hid

theorem revertScale_lockstep (n : UInt32) (message : String) :
    Lockstep (Ready s₁ s₂ m₁ m₂ r) (Alike s₁ s₂ (s₁.freshId m₁) (s₂.freshId m₂) r)
      (revertScale s₁ a entry n message) (revertScale s₂ a entry n message) := by
  have hnew : Request.id { entry.request with instances := n } = r := hid
  have hupdate : Lockstep (Ready s₁ s₂ m₁ m₂ r) (Ready s₁ s₂ m₁ m₂ r) _ _ :=
    updateRequest_lockstep hs₁ hs₂ Ready.blind (fun _ _ => Ready.alike)
      (fun _ _ _ _ h => h.changed) hnew entry.state (some .scaleReverted) a.user message
  have hbounce : Lockstep (Ready s₁ s₂ m₁ m₂ r) _ _ _ :=
    bounceAfterScale_lockstep hs₁ hs₂ hnow ha hid hnew
  have hnotify : Lockstep (Alike s₁ s₂ (s₁.freshId m₁) (s₂.freshId m₂) r) _ _ _ :=
    notifyScaled_lockstep hs₁ hs₂ hnew entry.request.instances a.user
  subst ha
  unfold revertScale
  dsimp only
  refine hupdate.bind (fun _ => ?_) fun _ _ => Ready.alike
  split
  · exact hbounce.andThen fun _ => hnotify.andThen fun _ => .pure _
  · exact Lockstep.andThen (fun w₁ w₂ h => hnotify w₁ w₂ h.alike) fun _ => .pure _

end Scale

end Poll

end Lapse
