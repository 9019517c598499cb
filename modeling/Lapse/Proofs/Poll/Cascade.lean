import Lapse.Proofs.Cluster
import Lapse.Proofs.Poll.Footprint

/-!
# How far a bounce after a scale comes

The bounce after a scale is a chain of calls, each of which may fail: the deploy in use is asked
for, a cleanup is ordered, the bounce is recorded, and it is stored as an action.  What was done
before a failure stays done, so that it leaves a first part of the chain, and every part names the
same request, deploy, user and action id.  A revert leaves one such chain at most; and only one that
did not fail has left the whole of it.
-/

namespace Lapse.Poll

variable {s : Conditions} {α β : Type}

/-- The entries of the history on bounces. -/
def World.bounces (w : World) : List Request.Record :=
  w.cluster.requestHistory.filter fun record => record.event = .bounced

/-- How far the bounce after a scale came. -/
inductive Stage where
  /-- Its cleanup was ordered. -/
  | ordered
  /-- Then it was recorded in the history. -/
  | bounced
  /-- Then it was stored as an action. -/
  | stored
  deriving DecidableEq

/-- A bounce after a scale that was begun. -/
structure Cascade where
  scale : Action
  /-- The request as it was before the scale was undone. -/
  old : Request
  deployId : String
  actionId : String
  stage : Stage

namespace Cascade

variable (s : Conditions) (c : Cascade)

def message : String := "Bouncing after expiring scale by " ++ c.scale.user

/-- The cleanup that was ordered. -/
def cleanup : Request.Cleanup where
  user := c.scale.user
  reason := .incrementalBounce
  timestamp := s.now
  requestId := c.old.id
  deployId := some c.deployId
  message := some c.message
  actionId := some c.actionId

/-- The entry of the history, if it came to that. -/
def records : List Request.Record :=
  if c.stage = .ordered then []
  else [⟨c.old.id, .bounced, c.scale.user, s.wall, c.old.instances, some c.message⟩]

/-- The action as which the bounce is stored: it begins with the poll, on no terms of its own. -/
def action : Action where
  requestId := c.old.id
  actionId := c.actionId
  user := c.scale.user
  startMillis := s.now
  terms := { durationMillis := none, message := none }
  undo := .bounce c.deployId

/-- The action that was stored, if it came to that. -/
def actions : List Action := if c.stage = .stored then [c.action s] else []

variable {s c}

theorem requestId_of_mem_records {record : Request.Record} (h : record ∈ c.records s) :
    record.requestId = c.old.id := by
  rw [records] at h
  split at h
  · exact nomatch h
  · rw [List.mem_singleton.mp h]

theorem requestId_of_mem_actions {b : Action} (h : b ∈ c.actions s) : b.requestId = c.old.id := by
  rw [actions] at h
  split at h
  · rw [List.mem_singleton.mp h]
    rfl
  · exact nomatch h

end Cascade

/-- Cleanups were ordered, bounces recorded and actions stored, and no deploy was changed. -/
structure Adds (cleanups : List Request.Cleanup) (records : List Request.Record)
    (actions : List Action) (w w' : World) : Prop where
  cleanups : w'.cluster.requestCleanups = w.cluster.requestCleanups ++ cleanups
  bounces : w'.bounces = w.bounces ++ records
  saved : w'.saved = w.saved ++ actions
  store : w'.store = actions.foldl Store.save w.store
  inUse : w'.cluster.inUseDeploys = w.cluster.inUseDeploys

namespace Adds

variable {cleanups cleanups' : List Request.Cleanup} {records records' : List Request.Record}
  {actions actions' : List Action} {w w₁ w₂ w' : World}

/-- Nothing was added. -/
theorem nothing (hcleanups : w'.cluster.requestCleanups = w.cluster.requestCleanups)
    (hbounces : w'.bounces = w.bounces) (hsaved : w'.saved = w.saved) (hstore : w'.store = w.store)
    (hinUse : w'.cluster.inUseDeploys = w.cluster.inUseDeploys) : Adds [] [] [] w w' := by
  refine ⟨?_, ?_, ?_, hstore, hinUse⟩
  · rw [hcleanups, List.append_nil]
  · rw [hbounces, List.append_nil]
  · rw [hsaved, List.append_nil]

theorem trans (h : Adds cleanups records actions w w₁)
    (h' : Adds cleanups' records' actions' w₁ w₂) :
    Adds (cleanups ++ cleanups') (records ++ records') (actions ++ actions') w w₂ := by
  refine ⟨?_, ?_, ?_, ?_, h'.inUse.trans h.inUse⟩
  · rw [h'.cleanups, h.cleanups, List.append_assoc]
  · rw [h'.bounces, h.bounces, List.append_assoc]
  · rw [h'.saved, h.saved, List.append_assoc]
  · rw [h'.store, h.store, List.foldl_append]

theorem after_nothing (h : Adds [] [] [] w w₁) (h' : Adds cleanups records actions w₁ w₂) :
    Adds cleanups records actions w w₂ := h.trans h'

theorem then_nothing (h : Adds cleanups records actions w w₁) (h' : Adds [] [] [] w₁ w₂) :
    Adds cleanups records actions w w₂ := by
  simpa only [List.append_nil] using h.trans h'

end Adds

/-! ## What adds nothing -/

theorem frame_adds : Frame (Adds [] [] []) where
  refl _ := .nothing rfl rfl rfl rfl rfl
  trans h h' := h.trans h'
  noted w c fault h := by
    refine .nothing rfl rfl ?_ rfl rfl
    rw [World.saved_note, h]
    exact List.append_nil w.saved
  minted _ _ _ := .nothing rfl rfl rfl rfl rfl
  logged _ _ := .nothing rfl rfl rfl rfl rfl

theorem callOffFrame_adds (a : Action) : CallOffFrame s a (Adds [] [] []) where
  toFrame := frame_adds
  cleanupRemoved _ _ _ := .nothing rfl rfl rfl rfl rfl
  updatesRemoved _ _ _ _ _ := .nothing rfl rfl rfl rfl rfl
  pendingRemoved _ _ _ := .nothing rfl rfl rfl rfl rfl
  enqueued _ _ _ := .nothing rfl rfl rfl rfl rfl

/-- A history that grows by an entry on something else than a bounce. -/
theorem bounces_append {c : Cluster} {w : World} (record : Request.Record)
    (hevent : record.event ≠ .bounced)
    (h : c.requestHistory = w.cluster.requestHistory ++ [record]) :
    ({ w with cluster := c } : World).bounces = w.bounces := by
  show c.requestHistory.filter _ = _
  rw [h, List.filter_append, List.filter_cons_of_neg (by simpa using hevent)]
  exact List.append_nil w.bounces

theorem restoreFrame_adds (a : Action) (entry : Request.Entry) :
    RestoreFrame s a entry (Adds [] [] []) where
  toFrame := frame_adds
  updated w c new event message _ hevent h := by
    obtain ⟨-, -, more, -, rfl⟩ := Cluster.updateRequest_eq_ok h
    refine .nothing rfl (bounces_append ⟨new.id, _, _, _, _, _⟩ ?_ rfl) rfl rfl rfl
    cases event with
    | none => exact nofun
    | some event => exact fun heq => hevent (congrArg some heq)
  unpaused w c message h := by
    obtain ⟨old, more, -, -, rfl⟩ := Cluster.unpause_eq_ok h
    exact .nothing rfl (bounces_append ⟨entry.request.id, .unpaused, _, _, _, _⟩ nofun rfl)
      rfl rfl rfl
  notified _ _ _ _ := .nothing rfl rfl rfl rfl rfl

/-! ## The chain -/

/-- From `w` a bounce after the scale of `a` was not begun, or it came to some stage, and not to
the last one only with a failure. -/
def Bounces (s : Conditions) (a : Action) (old : Request) (w : World) (res : Except Failure α)
    (w' : World) : Prop :=
  Adds [] [] [] w w' ∨
    ∃ c : Cascade, c.scale = a ∧ c.old = old ∧
      w.cluster.inUseDeploys.get? old.id = some c.deployId ∧ (∃ n, c.actionId = s.freshId n) ∧
      Adds [c.cleanup s] (c.records s) (c.actions s) w w' ∧
      (c.stage = .stored ∨ ∃ why, res = .error why)

namespace Bounces

variable {a : Action} {old : Request} {w w₁ w₂ : World}

theorem after_nothing (h : Adds [] [] [] w w₁) {res : Except Failure α}
    (h' : Bounces s a old w₁ res w₂) : Bounces s a old w res w₂ := by
  rcases h' with h' | ⟨c, hscale, hold, hdeploy, hid, h', hend⟩
  · exact .inl (h.trans h')
  · rw [h.inUse] at hdeploy
    exact .inr ⟨c, hscale, hold, hdeploy, hid, h.after_nothing h', hend⟩

/-- A step that adds nothing may come first. -/
theorem bind {x : Step α} {f : α → Step β} (hx : Keeps (Adds [] [] []) x.run)
    (hf : ∀ b, answer x.run w = .ok b →
      Bounces s a old (after x.run w) (answer (f b).run (after x.run w))
        (after (f b).run (after x.run w))) :
    Bounces s a old w (answer (x >>= f).run w) (after (x >>= f).run w) := by
  cases h : answer x.run w with
  | ok b =>
      rw [answer_step_bind_ok h, after_step_bind_ok h]
      exact .after_nothing (hx w) (hf b h)
  | error why =>
      rw [after_step_bind_error h]
      exact .inl (hx w)

/-- Steps that add nothing may follow. -/
theorem then_nothing {x : Step α} {f : α → Step β}
    (hx : Bounces s a old w (answer x.run w) (after x.run w))
    (hf : ∀ b, Keeps (Adds [] [] []) (f b).run) :
    Bounces s a old w (answer (x >>= f).run w) (after (x >>= f).run w) := by
  have hrest : Adds [] [] [] (after x.run w) (after (x >>= f).run w) :=
    frame_adds.step_rest x hf w
  rcases hx with hx | ⟨c, hscale, hold, hdeploy, hid, hx, hend⟩
  · exact .inl (hx.trans hrest)
  · refine .inr ⟨c, hscale, hold, hdeploy, hid, hx.then_nothing hrest, ?_⟩
    rcases hend with hstored | ⟨why, hwhy⟩
    · exact .inl hstored
    · refine .inr ⟨why, ?_⟩
      rw [answer_step_bind, hwhy]

end Bounces

section Links

variable (during : String) (w : World)

/-- Ordering a cleanup adds it if that is what it answers, and otherwise nothing. -/
theorem createCleanup_adds (cleanup : Request.Cleanup) :
    answer (createCleanup s during cleanup).run w = .ok .created ∧
        Adds [cleanup] [] [] w (after (createCleanup s during cleanup).run w) ∨
      answer (createCleanup s during cleanup).run w ≠ .ok .created ∧
        Adds [] [] [] w (after (createCleanup s during cleanup).run w) := by
  have hmeet : answer (liftM (meet s during (.createCleanup cleanup)) : Step (Option Fault)).run w =
      .ok (s.faults w.calls ⟨during, .createCleanup cleanup⟩) := rfl
  have hnoted := fun fault => frame_adds.noted w ⟨during, .createCleanup cleanup⟩ fault rfl
  unfold createCleanup
  rw [answer_step_bind_ok hmeet, after_step_bind_ok hmeet]
  show _ ∧ Adds _ _ _ w (after _ (w.note _ _)) ∨ _ ∧ Adds _ _ _ w (after _ (w.note _ _))
  rcases s.faults w.calls ⟨during, .createCleanup cleanup⟩ with _ | why | _
  · dsimp only
    rw [answer_step_bind_ok (a := w.cluster) rfl, after_step_bind_ok (a := w.cluster) rfl,
      Cluster.createCleanup]
    split
    · refine .inr ⟨?_, hnoted none⟩
      rintro ⟨⟩
    · exact .inl ⟨rfl, rfl, (hnoted none).bounces, (hnoted none).saved, rfl, rfl⟩
  · refine .inr ⟨?_, hnoted _⟩
    rintro ⟨⟩
  · refine .inr ⟨?_, hnoted _⟩
    rintro ⟨⟩

/-- Bouncing a request records that, or it fails. -/
theorem bounce_adds (request : Request) (user message : String) :
    answer (bounce s during request user message).run w = .ok () ∧
        Adds [] [⟨request.id, .bounced, user, s.wall, request.instances, some message⟩] [] w
          (after (bounce s during request user message).run w) ∨
      (∃ why, answer (bounce s during request user message).run w = .error why) ∧
        Adds [] [] [] w (after (bounce s during request user message).run w) := by
  unfold bounce
  rcases run_call s (some during) (.bounce request) (w := w) with ⟨why, -, hfails⟩ | ⟨-, hrun⟩
  · rw [(hfails _).1, (hfails _).2]
    exact .inr ⟨⟨why, rfl⟩, frame_adds.noted w _ _ rfl⟩
  · rw [(hrun _).1, (hrun _).2]
    have hnoted := frame_adds.noted w ⟨some during, .bounce request⟩
      (s.faults w.calls ⟨some during, .bounce request⟩) rfl
    exact .inl ⟨rfl, hnoted.cleanups, List.filter_append _ _, hnoted.saved, rfl, rfl⟩

/-- Storing an action stores it, or it fails. -/
theorem saveAction_adds (b : Action) :
    answer (saveAction s during b).run w = .ok () ∧
        Adds [] [] [b] w (after (saveAction s during b).run w) ∨
      (∃ why, answer (saveAction s during b).run w = .error why) ∧
        Adds [] [] [] w (after (saveAction s during b).run w) := by
  unfold saveAction
  rcases run_call s (some during) (.saveAction b) (w := w) with ⟨why, -, hfails⟩ | ⟨hok, hrun⟩
  · rw [(hfails _).1, (hfails _).2]
    exact .inr ⟨⟨why, rfl⟩, frame_adds.noted w _ _ rfl⟩
  · rw [(hrun _).1, (hrun _).2]
    refine .inl ⟨rfl, (List.append_nil _).symm, (List.append_nil _).symm, ?_, rfl, rfl⟩
    show (w.note _ _).saved = _
    rw [World.saved_note, Made.saved?_saveAction hok]
    rfl

end Links

/-- Recording a bounce and storing it come to some stage, and not to the last one only with a
failure. -/
theorem bounce_then_save (a : Action) (old : Request) (deployId id message : String)
    (hmessage : message = "Bouncing after expiring scale by " ++ a.user) (w : World) :
    ∃ stage, let c : Cascade := ⟨a, old, deployId, id, stage⟩
      let x : Step Unit := do
        bounce s a.requestId old a.user message
        saveAction s a.requestId (cascadeAction s a old.id deployId id)
      Adds [] (c.records s) (c.actions s) w (after x.run w) ∧
        (stage = .stored ∨ ∃ why, answer x.run w = .error why) := by
  subst hmessage
  rcases bounce_adds a.requestId w old a.user ("Bouncing after expiring scale by " ++ a.user)
    (s := s) with ⟨hok, hbounced⟩ | ⟨⟨why, hwhy⟩, hnothing⟩
  · rcases saveAction_adds a.requestId (after (bounce s a.requestId old a.user
        ("Bouncing after expiring scale by " ++ a.user)).run w)
      (cascadeAction s a old.id deployId id) (s := s) with ⟨-, hsaved⟩ | ⟨⟨why, hwhy⟩, hnothing⟩
    · refine ⟨.stored, ?_, .inl rfl⟩
      rw [after_step_bind_ok hok]
      exact hbounced.trans hsaved
    · refine ⟨.bounced, ?_, .inr ⟨why, ?_⟩⟩
      · rw [after_step_bind_ok hok]
        exact hbounced.then_nothing hnothing
      · rw [answer_step_bind_ok hok, hwhy]
  · refine ⟨.ordered, ?_, .inr ⟨why, ?_⟩⟩
    · rw [after_step_bind_error hwhy]
      exact hnothing
    · rw [answer_step_bind, hwhy]

/-- The bounce after a scale comes to some stage, whatever fails. -/
theorem bounceAfterScale_bounces (a : Action) (old new : Request) (hid : new.id = old.id)
    (w : World) :
    Bounces s a old w (answer (bounceAfterScale s a old new).run w)
      (after (bounceAfterScale s a old new).run w) := by
  have hF := frame_adds
  unfold bounceAfterScale
  rw [hid]
  refine .bind (Frame.lift (hF.say _ _)) fun _ _ => ?_
  -- the deploy that is read stays in use up to the ordering of the cleanup
  have hread : Keeps (Adds [] [] []) (inUseDeploy s a.requestId old.id).run :=
    hF.read fun _ => rfl
  refine .bind hread fun deploy hdeploy => ?_
  have hinUse := (answer_read hdeploy).symm
  rw [← (hread _).inUse] at hinUse
  generalize after (inUseDeploy s a.requestId old.id).run _ = w₁ at hinUse ⊢
  cases deploy with
  | none => exact .inl (hF.logged _ _)
  | some deployId =>
      refine .bind hF.get fun w₂ hw₂ => ?_
      obtain rfl : w₁ = w₂ := Except.ok.inj hw₂
      rw [show after (get : Step World).run w₁ = w₁ from rfl]
      dsimp only
      rcases createCleanup_adds a.requestId w₁ (cascadeCleanup s a old.id deployId
        ("Bouncing after expiring scale by " ++ a.user) (s.freshId w₁.minted)) (s := s)
        with ⟨hcreated, hordered⟩ | ⟨hother, hnothing⟩
      · rw [answer_step_bind_ok hcreated, after_step_bind_ok hcreated]
        generalize after (createCleanup s a.requestId _).run w₁ = w₂ at hordered ⊢
        dsimp only
        obtain ⟨stage, hstage, hend⟩ := bounce_then_save a old deployId (s.freshId w₁.minted)
          ("Bouncing after expiring scale by " ++ a.user) rfl w₂ (s := s)
        refine .inr ⟨⟨a, old, deployId, s.freshId w₁.minted, stage⟩, rfl, rfl, hinUse, ⟨_, rfl⟩, ?_⟩
        rw [answer_step_catch, after_step_catch]
        have hall := hordered.trans hstage
        -- the failure that is caught is thrown again
        cases hres : answer (_ : Step Unit).run w₂ with
        | ok _ =>
            rw [hres] at hend
            exact ⟨hall, hend.imp_right fun ⟨why, hwhy⟩ => nomatch hwhy⟩
        | error why => exact ⟨hall.then_nothing (hF.logged _ _), .inr ⟨why, rfl⟩⟩
      · cases hres : answer (createCleanup s a.requestId _).run w₁ with
        | error why =>
            rw [after_step_bind_error hres]
            exact .inl hnothing
        | ok creation =>
            rw [answer_step_bind_ok hres, after_step_bind_ok hres]
            cases creation with
            | created => exact absurd hres hother
            | existed => exact .inl (hnothing.trans (hF.logged _ _))

/-- **ONE CHAIN**: whatever fails, a revert begins no bounce, or it is of a scale to some instances
of a request that bounces after scaling, and begins one bounce, which comes to some stage. -/
theorem revert_bounces (a : Action) (entry : Request.Entry) (message : String) (w : World) :
    Adds [] [] [] w (after (revert s a entry message).run w) ∨
      (∃ n, a.undo = .scale n ∧ n ≠ 0) ∧ entry.request.bouncesAfterScale = true ∧
        Bounces s a entry.request w (answer (revert s a entry message).run w)
          (after (revert s a entry message).run w) := by
  have hrestore := restoreFrame_adds (s := s) a entry
  unfold revert
  cases hundo : a.undo with
  | bounce deployId => exact .inl ((callOffFrame_adds a).revertBounce deployId message w)
  | pause => exact .inl (hrestore.revertPause message w)
  | skipHealthchecks flag => exact .inl (hrestore.revertSkipHealthchecks flag message w)
  | scale n =>
      have hupdate : Keeps (Adds [] [] []) (updateRequest s a.requestId
          { entry.request with instances := n } entry.state (some .scaleReverted) a.user
          message).run :=
        frame_adds.tryChange (fun _ => rfl) fun w c =>
          hrestore.updated w c _ _ message rfl (by decide)
      have hnotified := frame_adds.notifyScaled { entry.request with instances := n }
        entry.request.instances a.user (fun w => hrestore.notified w _ _ rfl) a.requestId
      unfold revertScale
      by_cases hbounces : entry.request.bouncesAfterScale = true
      · cases hok : answer (updateRequest s a.requestId { entry.request with instances := n }
            entry.state (some .scaleReverted) a.user message).run w with
        | error why =>
            rw [after_step_bind_error hok]
            exact .inl (hupdate w)
        | ok _ =>
            -- an update that is accepted leaves some instances
            have hn : n ≠ 0 := by
              obtain ⟨c, hc⟩ := answer_tryChange hok
              exact (Cluster.updateRequest_eq_ok hc).1
            refine .inr ⟨⟨n, rfl, hn⟩, hbounces, .bind hupdate fun _ _ => ?_⟩
            dsimp only
            rw [if_pos (show Request.bouncesAfterScale { entry.request with instances := n } = true
              from hbounces)]
            refine .then_nothing ?_ fun _ => hnotified
            exact bounceAfterScale_bounces a entry.request _ rfl _
      · refine .inl (frame_adds.step_bind hupdate (fun _ => ?_) w)
        dsimp only
        rw [if_neg (show ¬ Request.bouncesAfterScale { entry.request with instances := n } = true
          from hbounces)]
        exact hnotified

end Lapse.Poll
