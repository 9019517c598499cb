import Lapse.Poll.Pass
import Lapse.Proofs.Cluster.Upkeep
import Lapse.Proofs.Poll.Course

/-!
# Runs of the cluster

Callers and polls take turns at the cluster: each operation is asked for with any arguments and
under any faults, and a poll may find any store.  Each turn keeps the cluster sound and only appends
to what happened, a turn that answers a failure does nothing, and only the insertion of a request
brings requests, or leaves one without instances.
-/

namespace Lapse.Poll

variable {s : Conditions} {α : Type}

/-- What is done in one turn. -/
inductive Deed where
  | insertRequest (request : Request) (state : Request.State)
  | setInUseDeploy (requestId deployId : String)
  | recordTaskUpdate (update : Task.Update)
  | addTaskCleanup (cleanup : Task.Cleanup)
  | findRequest (requestId : String)
  | updateRequest (new : Request) (state : Request.State) (event : Option Request.Event)
    (user : String) (skipHealthchecks : Option Bool) (message : Option String)
  | unpause (request : Request) (user : String) (message : Option String)
    (skipHealthchecks : Option Bool)
  | inUseDeploy (requestId : String)
  | createCleanup (cleanup : Request.Cleanup)
  | bounce (request : Request) (user : String) (message : Option String)
  | taskCleanups
  | removeTaskCleanup (cleanup : Task.Cleanup)
  | taskCleanup (taskId : Task.Id)
  | taskUpdates (taskId : Task.Id)
  | removeTaskUpdates (taskId : Task.Id) (state : Task.State) (latest : Option Task.Update)
  | pending (requestId deployId : String)
  | removePending (entry : Request.Pending)
  | enqueue (entry : Request.Pending)
  | notifyScaled (request : Request) (oldInstances : UInt32) (user : String)
  /-- A poll of whatever the store holds by then. -/
  | poll (store : Store)

/-- Whether a request is inserted. -/
def Deed.inserts : Deed → Bool
  | .insertRequest _ _ => true
  | _ => false

/-- A step whose answer is not asked for. -/
def unanswered (x : Step α) : Step Unit := do
  let _ ← x

/-- What a deed does, asked for by a request. -/
def Deed.act (s : Conditions) (during : String) : Deed → Step Unit
  | .insertRequest request state => changeCluster fun c => c.insertRequest request state
  | .setInUseDeploy requestId deployId => changeCluster fun c => c.setInUseDeploy requestId deployId
  | .recordTaskUpdate update => changeCluster fun c => c.recordTaskUpdate update
  | .addTaskCleanup cleanup =>
    changeCluster fun c => { c with taskCleanups := c.taskCleanups ++ [cleanup] }
  | .findRequest requestId => unanswered <| Poll.findRequest s requestId
  | .updateRequest new state event user skipHealthchecks message =>
    call s during (.updateRequest new) <|
      tryChange fun c => c.updateRequest s.wall new state event user skipHealthchecks message
  | .unpause request user message skipHealthchecks =>
    call s during (.unpause request) <|
      tryChange fun c => c.unpause s.wall request user message skipHealthchecks
  | .inUseDeploy requestId => unanswered <| Poll.inUseDeploy s during requestId
  | .createCleanup cleanup => unanswered <| Poll.createCleanup s during cleanup
  | .bounce request user message =>
    call s during (.bounce request) <| changeCluster fun c => c.bounce s.wall request user message
  | .taskCleanups => unanswered <| Poll.taskCleanups s during
  | .removeTaskCleanup cleanup => Poll.removeTaskCleanup s during cleanup
  | .taskCleanup taskId => unanswered <| Poll.taskCleanup? s during taskId
  | .taskUpdates taskId => unanswered <| Poll.taskUpdates s during taskId
  | .removeTaskUpdates taskId state latest => Poll.removeTaskUpdates s during taskId state latest
  | .pending requestId deployId => unanswered <| Poll.pending? s during requestId deployId
  | .removePending entry => Poll.removePending s during entry
  | .enqueue entry => Poll.enqueue s during entry
  | .notifyScaled request oldInstances user =>
    Poll.notifyScaled s during request oldInstances user
  | .poll store => do
    modify fun w => { w with store }
    unanswered <| liftM (Poll.poll s)

/-! ## Polls -/

/-- The clusters of two worlds, the second later than the first and steady since. -/
def Steadied (w w' : World) : Prop := w.cluster.Steady w'.cluster

theorem frame_steadied : Frame Steadied where
  refl w := .refl w.cluster
  trans h h' := h.trans h'
  noted w _ _ _ := .refl w.cluster
  minted w _ _ := .refl w.cluster
  logged w _ := .refl w.cluster

theorem revertFrame_steadied (a : Action) (entry : Request.Entry) :
    RevertFrame s a entry Steadied where
  toFrame := frame_steadied
  cleanupRemoved _ _ _ := .of_eq rfl rfl rfl List.prefix_rfl List.prefix_rfl
  updatesRemoved w taskId state latest _ := w.cluster.removeTaskUpdates_steady taskId state latest
  pendingRemoved _ _ _ := .of_eq rfl rfl rfl List.prefix_rfl List.prefix_rfl
  enqueued _ _ _ := .of_eq rfl rfl rfl List.prefix_rfl List.prefix_rfl
  cleanupCreated w _ _ _ := w.cluster.createCleanup_steady _
  bounced w _ := w.cluster.record_steady _ _ _ _ _
  stored w _ _ _ _ _ := .refl w.cluster
  updated _ _ _ _ _ _ _ h := Cluster.updateRequest_steady h
  unpaused _ _ _ h := Cluster.unpause_steady h
  notified w request oldInstances _ := w.cluster.notifyScaled_steady s.wall request oldInstances _

theorem Quiet.steadied {w w' : World} (h : Quiet w w') : Steadied w w' := by
  rw [Steadied, h.cluster]
  exact .refl w.cluster

theorem Visited.steadied {kind : Kind} {a : Action} {failed : Bool} {w w' : World}
    (h : Visited s kind a failed w w') : Steadied w w' := by
  cases h with
  | still quiet => exact quiet.steadied
  | dropped quiet => exact Quiet.steadied (w := w.removed kind a.requestId) quiet
  | @reverted _ w₁ _ entry message _ _ _ before _ quiet =>
      have hrevert : Steadied w (after (revert s a entry message).run w₁) :=
        before.steadied.trans ((revertFrame_steadied (s := s) a entry).revert message w₁)
      refine hrevert.trans ?_
      exact quiet.elim Quiet.steadied
        (Quiet.steadied (w := World.removed _ kind a.requestId))

theorem passOf_steadied (kind : Kind) : Keeps Steadied (passOf s kind) := by
  intro w
  obtain ⟨vs, w₁, hlisted, -, hvisits, -, -⟩ := passOf_visits (s := s) kind w
  have hstart : Steadied w w₁ :=
    hlisted.elim Quiet.steadied (Quiet.steadied (w := w.healed kind))
  refine hvisits.induct (fun _ w' => Steadied w w') hstart ?_ ?_
  · intro done w₁ w₂ hdone quiet
    exact hdone.trans quiet.steadied
  · intro done a failed rest w₁ w₂ _ hdone hvisited
    exact hdone.trans hvisited.steadied

theorem poll_steadied : Keeps Steadied (poll s) := by
  have key : ∀ kinds, Keeps Steadied (passes s kinds) := by
    intro kinds
    induction kinds with
    | nil => exact frame_steadied.refl
    | cons kind rest ih => exact fun w => (passOf_steadied kind w).trans (ih _)
  exact key Kind.all

/-! ## One turn -/

/-- Each deed but the insertion of a request keeps the cluster steady. -/
theorem act_steadied (during : String) {d : Deed} (h : d.inserts = false) :
    Keeps Steadied (d.act s during).run := by
  have F := frame_steadied
  -- a deed that only asks changes nothing
  have asked : ∀ {α : Type} {x : Step α}, Keeps Steadied x.run →
      Keeps Steadied (unanswered x).run := fun hx => F.step_bind hx fun _ => F.step_pure ()
  have changed : ∀ {op : Operation} {f : Cluster → Cluster},
      (∀ fault, Made.saved? ⟨⟨some during, op⟩, fault⟩ = none) →
      (∀ c : Cluster, c.Steady (f c)) →
      Keeps Steadied (call s during op (changeCluster f)).run :=
    fun hop hf => F.change hop fun w => hf w.cluster
  cases d with
  | insertRequest request state => exact nomatch h
  | setInUseDeploy r deployId =>
      exact fun w => .of_eq rfl rfl rfl List.prefix_rfl List.prefix_rfl
  | recordTaskUpdate update => exact fun w => w.cluster.recordTaskUpdate_steady update
  | addTaskCleanup cleanup =>
      exact fun w => .of_eq rfl rfl rfl List.prefix_rfl List.prefix_rfl
  | findRequest r => exact asked (F.read fun _ => rfl)
  | updateRequest new state event user flag message =>
      exact F.tryChange (fun _ => rfl) fun w c hc => Cluster.updateRequest_steady hc
  | unpause request user message flag =>
      exact F.tryChange (fun _ => rfl) fun w c hc => Cluster.unpause_steady hc
  | inUseDeploy r => exact asked (F.read fun _ => rfl)
  | createCleanup cleanup =>
      exact asked (F.createCleanup (fun w => w.cluster.createCleanup_steady cleanup) during)
  | bounce request user message =>
      exact changed (fun _ => rfl) fun c => c.record_steady _ _ _ _ _
  | taskCleanups => exact asked (F.read fun _ => rfl)
  | removeTaskCleanup cleanup =>
      exact changed (fun _ => rfl) fun c => .of_eq rfl rfl rfl List.prefix_rfl List.prefix_rfl
  | taskCleanup taskId => exact asked (F.read fun _ => rfl)
  | taskUpdates taskId => exact asked (F.read fun _ => rfl)
  | removeTaskUpdates taskId state latest =>
      exact changed (fun _ => rfl) fun c => c.removeTaskUpdates_steady taskId state latest
  | pending r deployId => exact asked (F.read fun _ => rfl)
  | removePending entry =>
      exact changed (fun _ => rfl) fun c => .of_eq rfl rfl rfl List.prefix_rfl List.prefix_rfl
  | enqueue entry =>
      exact changed (fun _ => rfl) fun c => .of_eq rfl rfl rfl List.prefix_rfl List.prefix_rfl
  | notifyScaled request oldInstances user =>
      refine F.call (fun _ => rfl) (F.step_bind (Frame.lift (F.say _ _)) fun _ => ?_)
      exact fun w => w.cluster.notifyScaled_steady _ _ _ _
  | poll store =>
      intro w
      exact poll_steadied (s := s) { w with store }

/-- A computation that leaves the cluster alone if it answers a failure. -/
def Whole (act : Step α) : Prop :=
  ∀ w why, answer act.run w = .error why → (after act.run w).cluster = w.cluster

namespace Whole

/-- A computation that never fails. -/
theorem of_ok {act : Step α} (h : ∀ w, ∃ a, answer act.run w = .ok a) : Whole act := by
  intro w why hwhy
  obtain ⟨a, ha⟩ := h w
  rw [ha] at hwhy
  exact nomatch hwhy

theorem call {during : Option String} {op : Operation} {act : Step α} (h : Whole act) :
    Whole (call s during op act) := by
  intro w why hwhy
  rcases run_call s during op (w := w) with ⟨why', -, hfails⟩ | ⟨-, hrun⟩
  · rw [(hfails act).2]
    rfl
  · rw [(hrun act).1] at hwhy
    rw [(hrun act).2]
    exact h _ why hwhy

theorem tryChange (f : Cluster → Except Failure Cluster) : Whole (tryChange f) := by
  intro w why hwhy
  cases hf : f w.cluster with
  | ok c =>
      rw [(run_tryChange_ok hf).1] at hwhy
      exact nomatch hwhy
  | error why' => rw [(run_tryChange_error hf).2]

theorem unanswered {x : Step α} (h : Whole x) : Whole (unanswered x) := by
  intro w why hwhy
  unfold Poll.unanswered at hwhy ⊢
  cases hx : answer x.run w with
  | ok a =>
      rw [answer_step_bind_ok hx] at hwhy
      exact nomatch hwhy
  | error why' =>
      rw [after_step_bind_error hx]
      exact h w why' hx

theorem createCleanup (during : String) (cleanup : Request.Cleanup) :
    Whole (createCleanup s during cleanup) := by
  intro w why hwhy
  cases hfault : s.faults w.calls ⟨during, .createCleanup cleanup⟩ with
  | none =>
      rw [(run_createCleanup hfault).1] at hwhy
      exact nomatch hwhy
  | some fault =>
      -- without doing its work the call only notes that it was made
      have hmeet : answer (liftM (meet s during (.createCleanup cleanup)) :
          Step (Option Fault)).run w = .ok (some fault) := congrArg Except.ok hfault
      unfold Poll.createCleanup
      rw [after_step_bind_ok hmeet]
      cases fault with
      | fails why' => rfl
      | present => rfl

end Whole

/-- A deed that answers a failure leaves the cluster as it was. -/
theorem act_whole (during : String) (d : Deed) : Whole (d.act s during) := by
  have asked : ∀ {op : Operation} {asker : Option String} {α : Type} {f : Cluster → α},
      Whole (unanswered (call s asker op (do return f (← cluster)))) :=
    (Whole.call (.of_ok fun _ => ⟨_, rfl⟩)).unanswered
  have changed : ∀ {op : Operation} {f : Cluster → Cluster},
      Whole (call s during op (changeCluster f)) :=
    Whole.call (.of_ok fun _ => ⟨_, rfl⟩)
  cases d with
  | insertRequest request state => exact .of_ok fun _ => ⟨_, rfl⟩
  | setInUseDeploy r deployId => exact .of_ok fun _ => ⟨_, rfl⟩
  | recordTaskUpdate update => exact .of_ok fun _ => ⟨_, rfl⟩
  | addTaskCleanup cleanup => exact .of_ok fun _ => ⟨_, rfl⟩
  | findRequest r => exact asked
  | updateRequest new state event user flag message => exact .call (.tryChange _)
  | unpause request user message flag => exact .call (.tryChange _)
  | inUseDeploy r => exact asked
  | createCleanup cleanup => exact (Whole.createCleanup during cleanup).unanswered
  | bounce request user message => exact changed
  | taskCleanups => exact asked
  | removeTaskCleanup cleanup => exact changed
  | taskCleanup taskId => exact asked
  | taskUpdates taskId => exact asked
  | removeTaskUpdates taskId state latest => exact changed
  | pending r deployId => exact asked
  | removePending entry => exact changed
  | enqueue entry => exact changed
  | notifyScaled request oldInstances user => exact .call (.of_ok fun _ => ⟨_, rfl⟩)
  | poll store => exact .of_ok fun _ => ⟨_, rfl⟩

/-! ## Runs -/

/-- A deed, the conditions that it meets, and the request that asks for it. -/
structure Turn where
  conditions : Conditions
  during : String := ""
  deed : Deed

/-- What a turn does. -/
def Turn.act (t : Turn) : Step Unit := t.deed.act t.conditions t.during

/-- The world after turns one after another. -/
def World.run (w : World) (turns : List Turn) : World :=
  turns.foldl (fun w t => after t.act.run w) w

/-- What one turn does to the cluster, and what it cannot do. -/
structure Turn.Upheld (t : Turn) (w w' : World) : Prop where
  advances : w.cluster.Advances w'.cluster
  steady : t.deed.inserts = false → w.cluster.Steady w'.cluster
  whole : ∀ why, answer t.act.run w = .error why → w'.cluster = w.cluster

theorem Turn.upheld (t : Turn) (w : World) : t.Upheld w (after t.act.run w) where
  advances := by
    cases h : t.deed.inserts with
    | false => exact (act_steadied t.during h w).toAdvances
    | true =>
        obtain ⟨s, during, d⟩ := t
        cases d with
        | insertRequest request state => exact w.cluster.insertRequest_advances request state
        | _ => exact nomatch h
  steady h := act_steadied t.during h w
  whole why hwhy := act_whole t.during t.deed w why hwhy

theorem run_advances (turns : List Turn) (w : World) :
    w.cluster.Advances (w.run turns).cluster := by
  induction turns generalizing w with
  | nil => exact .refl w.cluster
  | cons t rest ih => exact (t.upheld w).advances.trans (ih _)

theorem run_steady {turns : List Turn} (h : ∀ t ∈ turns, t.deed.inserts = false) (w : World) :
    w.cluster.Steady (w.run turns).cluster := by
  induction turns generalizing w with
  | nil => exact .refl w.cluster
  | cons t rest ih =>
      have hfirst := (t.upheld w).steady (h t List.mem_cons_self)
      exact hfirst.trans (ih (fun t' ht' => h t' (List.mem_cons_of_mem t ht')) _)

/-- **UPKEEP**: from a sound cluster every run leaves a sound cluster and only appends to what
happened, and so does each of its turns; a turn that fails changes nothing, and only an insertion
brings requests, or leaves one without instances. -/
theorem run_upheld (turns : List Turn) (w : World) (hw : w.cluster.Sound) :
    (w.run turns).cluster.Sound ∧
    w.cluster.requestHistory <+: (w.run turns).cluster.requestHistory ∧
    w.cluster.notifications <+: (w.run turns).cluster.notifications ∧
    ((∀ t ∈ turns, t.deed.inserts = false) → w.cluster.Steady (w.run turns).cluster) ∧
    ∀ before t rest, turns = before ++ t :: rest →
      (w.run before).cluster.Sound ∧ t.Upheld (w.run before) (w.run (before ++ [t])) := by
  have hrun := run_advances turns w
  refine ⟨hrun.sound hw, hrun.requestHistory, hrun.notifications, fun h => run_steady h w, ?_⟩
  intro before t rest _
  refine ⟨(run_advances before w).sound hw, ?_⟩
  rw [World.run, World.run, List.foldl_append]
  exact t.upheld _

/-- A request with three instances. -/
def activeWeb : World where
  cluster := Cluster.insertRequest {} { id := "web", instances := 3 } .active

theorem activeWeb_sound : activeWeb.cluster.Sound where
  keyed := Cluster.keyed_empty.insert (show Request.id { id := "web", instances := 3 } = "web" from rfl)
    rfl
  cleanups := List.nodup_nil
  histories := List.nodup_nil

/-- A poll that undoes a scale, and then an update that leaves no instances. -/
def webTurns : List Turn :=
  [{ conditions := .calm 10000
     deed := .poll (Store.save .empty
       { requestId := "web", actionId := "s-1", user := "alice", startMillis := 0
         terms := { durationMillis := some 5000 }, undo := .scale 2 }) },
   { conditions := .calm 11000
     deed := .updateRequest { id := "web", instances := 0 } .active none "bob" none none }]

/-- The poll is recorded and the update is refused. -/
theorem run_upheld_activeWeb :
    activeWeb.cluster.Sound ∧ (activeWeb.run webTurns).cluster.Sound ∧
    (activeWeb.run webTurns).cluster.requestHistory.map (·.instances) = [2] ∧
    (activeWeb.run webTurns).cluster = (activeWeb.run (webTurns.take 1)).cluster := by
  obtain ⟨hsound, -, -, -, hturns⟩ := run_upheld webTurns activeWeb activeWeb_sound
  have hupdate := (hturns (webTurns.take 1) _ [] rfl).2
  refine ⟨activeWeb_sound, hsound, by decide +kernel, hupdate.whole (.noInstances "web") ?_⟩
  decide +kernel

end Lapse.Poll
