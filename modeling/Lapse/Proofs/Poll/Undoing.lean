import Lapse.Proofs.Duration
import Lapse.Proofs.Poll.Cancellation
import Lapse.Proofs.Poll.Cascade
import Lapse.Proofs.Poll.Foreseen
import Lapse.Proofs.Store.Ledger

/-!
# What undoing an action tells

While no call fails, a revert that is applied appends to the history what it undid, and the bounce that
followed if one did, and a scale is notified; a revert that is not applied, and a record that is not
reverted, append nothing.  What is appended is known from the action and the entry that it is undone
against, apart from whether a bounce followed.
-/

namespace Lapse

/-- What the history tells of undoing an action of a kind; of a bounce that is called off it tells
nothing. -/
def Kind.event? : Kind → Option Request.Event
  | .bounce => none
  | .pause => some .unpaused
  | .scale => some .scaleReverted
  | .skipHealthchecks => some .updated

namespace Poll

open World (say)

/-- An action that was undone, the entry that it was undone against, and the bounce that followed. -/
structure Undoing where
  action : Action
  entry : Request.Entry
  cascade : Option Cascade := none

namespace Undoing

variable (s : Conditions) (u : Undoing)

/-- The count of instances after the action was undone. -/
def instances : UInt32 := (u.action.undone u.entry).request.instances

/-- What is said of the action: that it expired. -/
def message : Option String := (u.action.lifetime s.config).toOption.map u.action.expiryText

/-- An entry of the history on undoing the action. -/
def record (event : Request.Event) : Request.Record where
  requestId := u.action.requestId
  event := event
  user := u.action.user
  timestamp := s.wall
  instances := u.instances
  message := u.message s

/-- The notification that the request was scaled. -/
def note : Notification where
  requestId := u.action.requestId
  oldInstances := u.entry.request.instances
  newInstances := u.instances
  user := u.action.user
  timestamp := s.wall

/-- The entry of the history that tells of undoing the action, if there is one. -/
def own : List Request.Record := (u.action.kind.event?.map (u.record s)).toList

/-- The entry of the history on a bounce that followed. -/
def bounced : Request.Record where
  requestId := u.action.requestId
  event := .bounced
  user := u.action.user
  timestamp := s.wall
  instances := u.entry.request.instances
  message := some ("Bouncing after expiring scale by " ++ u.action.user)

/-- What the history tells of undoing the action, and then of the bounce if one followed. -/
def records : List Request.Record :=
  u.own s ++ if u.cascade.isSome then [u.bounced s] else []

/-- The notifications that were sent. -/
def notes : List Notification := if u.action.kind = .scale then [u.note s] else []

/-- A bounce followed only if the action is a scale; it is the bounce after this scale, and it was
begun, recorded and stored. -/
def Sound : Prop := ∀ c, u.cascade = some c → u.action.kind = .scale ∧ c.scale = u.action ∧
  c.old = u.entry.request ∧ c.old.id = u.action.requestId ∧ c.stage = .stored

variable {s u}

theorem Sound.records_cascade (h : u.Sound) {c : Cascade} (hc : u.cascade = some c) :
    c.records s = [u.bounced s] := by
  obtain ⟨-, hscale, hold, hid, hstage⟩ := h c hc
  obtain ⟨scale, old, deployId, actionId, stage⟩ := c
  subst hscale hold hstage
  rw [bounced, ← hid]
  rfl

theorem Sound.flatMap_records (h : u.Sound) : u.cascade.toList.flatMap (·.records s) =
    if u.cascade.isSome then [u.bounced s] else [] := by
  cases hc : u.cascade with
  | none => rfl
  | some c => exact (List.flatMap_singleton _ c).trans (h.records_cascade hc)

theorem Sound.flatMap_actions (h : u.Sound) : u.cascade.toList.flatMap (·.actions s) =
    u.cascade.toList.map (·.action s) := by
  cases hc : u.cascade with
  | none => rfl
  | some c =>
      obtain ⟨-, -, -, -, hstage⟩ := h c hc
      exact (List.flatMap_singleton _ c).trans (if_pos hstage)

theorem sound_of_eq_none (h : u.cascade = none) : u.Sound := fun _ hc => nomatch h.symm.trans hc

/-- A bounce follows a scale only. -/
theorem Sound.cascade_eq_none (h : u.Sound) (hkind : u.action.kind ≠ .scale) :
    u.cascade = none :=
  Option.eq_none_iff_forall_ne_some.mpr fun c hc => hkind (h c hc).1

theorem own_eq {event : Request.Event} (hevent : u.action.kind.event? = some event)
    {message : String} (hmessage : u.message s = some message) {n : UInt32}
    (hn : u.instances = n) :
    u.own s = [⟨u.action.requestId, event, u.action.user, s.wall, n, some message⟩] := by
  rw [own, hevent, ← hmessage, ← hn]
  rfl

theorem event_of_mem_own {record : Request.Record} (h : record ∈ u.own s) :
    u.action.kind.event? = some record.event := by
  obtain ⟨event, hevent, rfl⟩ := Option.map_eq_some_iff.mp (Option.mem_toList.mp h)
  exact hevent

theorem own_ne_bounced {record : Request.Record} (h : record ∈ u.own s) :
    record.event ≠ .bounced := by
  intro hbounced
  have hevent := event_of_mem_own h
  rw [hbounced] at hevent
  cases hkind : u.action.kind with
  | bounce => rw [hkind] at hevent; exact nomatch hevent
  | pause => rw [hkind] at hevent; exact nomatch hevent
  | scale => rw [hkind] at hevent; exact nomatch hevent
  | skipHealthchecks => rw [hkind] at hevent; exact nomatch hevent

end Undoing

/-- The world after some actions were undone: what was appended, and what was stored. -/
structure Tells (s : Conditions) (us : List Undoing) (w w' : World) : Prop where
  history : w'.cluster.requestHistory =
    w.cluster.requestHistory ++ us.flatMap (·.records s)
  notifications : w'.cluster.notifications = w.cluster.notifications ++ us.flatMap (·.notes s)
  cleanups : w'.cluster.requestCleanups =
    w.cluster.requestCleanups ++ (us.filterMap (·.cascade)).map (·.cleanup s)
  saved : w'.saved = w.saved ++ (us.filterMap (·.cascade)).map (·.action s)

namespace Tells

variable {s : Conditions} {us us' : List Undoing} {w w₁ w₂ : World}

theorem of_eq (hcluster : w₁.cluster = w.cluster) (hsaved : w₁.saved = w.saved) :
    Tells s [] w w₁ := by
  refine ⟨?_, ?_, ?_, ?_⟩
  · rw [hcluster]
    exact (List.append_nil _).symm
  · rw [hcluster]
    exact (List.append_nil _).symm
  · rw [hcluster]
    exact (List.append_nil _).symm
  · rw [hsaved]
    exact (List.append_nil _).symm

theorem trans (h : Tells s us w w₁) (h' : Tells s us' w₁ w₂) : Tells s (us ++ us') w w₂ where
  history := by rw [h'.history, h.history, List.append_assoc, List.flatMap_append]
  notifications := by
    rw [h'.notifications, h.notifications, List.append_assoc, List.flatMap_append]
  cleanups := by
    rw [h'.cleanups, h.cleanups, List.append_assoc, List.filterMap_append, List.map_append]
  saved := by rw [h'.saved, h.saved, List.append_assoc, List.filterMap_append, List.map_append]

end Tells

variable {s : Conditions} {kind : Kind} {a : Action} {w w₁ w₂ w' : World}

/-! ## The history and the notifications of one revert -/

/-- Entries and then bounces were appended to the history, and notifications were sent. -/
structure Recorded (records : List Request.Record) (notes : List Notification) (w w' : World) :
    Prop where
  history : ∃ bounced : List Request.Record, (∀ record ∈ bounced, record.event = .bounced) ∧
    w'.cluster.requestHistory = w.cluster.requestHistory ++ records ++ bounced
  notifications : w'.cluster.notifications = w.cluster.notifications ++ notes

namespace Recorded

variable {records : List Request.Record} {notes notes' : List Notification}

theorem of_eq (hhistory : w'.cluster.requestHistory = w.cluster.requestHistory ++ records)
    (hnotes : w'.cluster.notifications = w.cluster.notifications ++ notes) :
    Recorded records notes w w' :=
  ⟨⟨[], nofun, by rw [hhistory, List.append_nil]⟩, hnotes⟩

theorem nothing (hhistory : w'.cluster.requestHistory = w.cluster.requestHistory)
    (hnotes : w'.cluster.notifications = w.cluster.notifications) : Recorded [] [] w w' :=
  of_eq (by rw [hhistory, List.append_nil]) (by rw [hnotes, List.append_nil])

/-- Bounces alone may follow. -/
theorem trans (h : Recorded records notes w w₁) (h' : Recorded [] notes' w₁ w₂) :
    Recorded records (notes ++ notes') w w₂ := by
  obtain ⟨⟨bounced, hbounced, hhistory⟩, hnotes⟩ := h
  obtain ⟨⟨bounced', hbounced', hhistory'⟩, hnotes'⟩ := h'
  refine ⟨⟨bounced ++ bounced', fun record hmem => ?_, ?_⟩, ?_⟩
  · exact (List.mem_append.mp hmem).elim (hbounced record) (hbounced' record)
  · rw [hhistory', hhistory, List.append_nil, List.append_assoc]
  · rw [hnotes', hnotes, List.append_assoc]

/-- The bounces among the new entries tell where the history ends. -/
theorem history_eq (h : Recorded records notes w w')
    (hrecords : ∀ record ∈ records, record.event ≠ .bounced) {bounced : List Request.Record}
    (hbounces : w'.bounces = w.bounces ++ bounced) :
    w'.cluster.requestHistory = w.cluster.requestHistory ++ (records ++ bounced) := by
  obtain ⟨⟨bounced', hbounced', hhistory⟩, -⟩ := h
  have hnone : records.filter (fun record => record.event = .bounced) = [] :=
    List.filter_eq_nil_iff.mpr fun record hmem => by simpa using hrecords record hmem
  have hall : bounced'.filter (fun record => record.event = .bounced) = bounced' :=
    List.filter_eq_self.mpr fun record hmem => decide_eq_true (hbounced' record hmem)
  rw [World.bounces, World.bounces, hhistory, List.filter_append, List.filter_append, hnone, hall,
    List.append_nil, List.append_cancel_left_eq] at hbounces
  rw [hhistory, hbounces, List.append_assoc]

/-- What was recorded, and the bounce that followed if one did, tell of the action. -/
theorem tells {u : Undoing} (h : Recorded (u.own s) (u.notes s) w w') (hsound : u.Sound)
    (hadds : Adds (u.cascade.toList.map (·.cleanup s)) (u.cascade.toList.flatMap (·.records s))
      (u.cascade.toList.flatMap (·.actions s)) w w') : Tells s [u] w w' := by
  have hcascade : [u].filterMap (·.cascade) = u.cascade.toList := by
    rw [List.filterMap_cons]
    cases u.cascade with
    | none => rfl
    | some c => rfl
  refine ⟨?_, ?_, ?_, ?_⟩
  · rw [h.history_eq (fun record hmem => Undoing.own_ne_bounced hmem) hadds.bounces,
      hsound.flatMap_records, List.flatMap_singleton]
    rfl
  · rw [h.notifications, List.flatMap_singleton]
  · rw [hadds.cleanups, hcascade]
  · rw [hadds.saved, hsound.flatMap_actions, hcascade]

end Recorded

/-- Calling off a bounce records nothing. -/
theorem callOffFrame_recorded (a : Action) : CallOffFrame s a fun w w' =>
    (w'.cluster.requestHistory, w'.cluster.notifications) =
      (w.cluster.requestHistory, w.cluster.notifications) where
  toFrame := Frame.ofCluster fun c => (c.requestHistory, c.notifications)
  cleanupRemoved _ _ _ := rfl
  updatesRemoved _ _ _ _ _ := rfl
  pendingRemoved _ _ _ := rfl
  enqueued _ _ _ := rfl

/-- The bounce after a scale records bounces. -/
theorem cascadeFrame_recorded (a : Action) (old : Request) :
    CascadeFrame s a old (Recorded [] []) where
  refl _ := .nothing rfl rfl
  trans h h' := h.trans h'
  noted _ _ _ _ := .nothing rfl rfl
  minted _ _ _ := .nothing rfl rfl
  logged _ _ := .nothing rfl rfl
  cleanupCreated w deployId message id := by
    obtain ⟨cleanups, hc⟩ :=
      w.cluster.createCleanup_eq (cascadeCleanup s a old.id deployId message id)
    rw [hc]
    exact .nothing rfl rfl
  bounced w message := by
    refine ⟨⟨[⟨old.id, .bounced, a.user, s.wall, old.instances, some message⟩], ?_, ?_⟩, ?_⟩
    · exact List.forall_mem_singleton.mpr rfl
    · rw [List.append_nil]
      rfl
    · exact (List.append_nil _).symm
  stored _ _ _ _ _ _ := .nothing rfl rfl

/-- After the update of a scale bounces are recorded, and one notification is sent. -/
theorem afterUpdate_recorded (hs : s.Reliable) (a : Action) (old new : Request)
    (hid : new.id = old.id) (w : World) :
    Recorded [] [⟨new.id, old.instances, new.instances, a.user, s.wall⟩] w
      (after (afterUpdate s a old new).run w) := by
  have hnotified : ∀ v, Recorded [] [⟨new.id, old.instances, new.instances, a.user, s.wall⟩] v
      (after (do
        notifyScaled s a.requestId new old.instances a.user
        return Outcome.applied : Step Outcome).run v) := by
    intro v
    have hturns : Turns (notifyScaled s a.requestId new old.instances a.user) v.cluster ()
        (v.cluster.notifyScaled s.wall new old.instances a.user) :=
      Turns.call (hs.spares _) ((Turns.say _ _ _).bind fun _ hw =>
        ⟨rfl, congrArg (Cluster.notifyScaled · s.wall new old.instances a.user) hw⟩)
    have hcluster :=
      ((hturns.bind (f := fun _ => pure Outcome.applied) (Turns.pure _ _)) v rfl).2
    refine .of_eq ?_ ?_
    · rw [hcluster, List.append_nil]
      rfl
    · rw [hcluster]
      rfl
  unfold afterUpdate
  dsimp only
  split
  · obtain ⟨_, hok, -⟩ := bounceAfterScale_yields hs a old new w
    rw [after_step_bind_ok hok]
    exact ((cascadeFrame_recorded a old).bounceAfterScale hid w).trans (hnotified _)
  · exact hnotified w

/-- An update that is refused records nothing. -/
theorem update_refused_recorded (hs : s.Reliable) (new : Request) (hn : new.instances = 0)
    {f : Unit → Step Outcome} (state : Request.State) (event : Option Request.Event)
    (message : String) : Recorded [] [] w
      (after (updateRequest s a.requestId new state event a.user message >>= f).run w) := by
  obtain ⟨herror, hcluster⟩ := updateRequest_refused hs hn a.requestId state event a.user message w
  rw [after_step_bind_error herror]
  exact .nothing (by rw [hcluster]) (by rw [hcluster])

theorem revertBounce_recorded (s : Conditions) (a : Action) (deployId message : String)
    (w : World) : Recorded [] [] w (after (revertBounce s a deployId message).run w) := by
  have hsame := (callOffFrame_recorded (s := s) a).revertBounce deployId message w
  obtain ⟨hhistory, hnotified⟩ := Prod.mk.inj hsame
  exact .nothing hhistory hnotified

section Revert

variable (hs : s.Reliable) {entry : Request.Entry}
  (hget : w.cluster.requests.get? a.requestId = some entry) (hid : entry.request.id = a.requestId)

include hs hget

/-- An update that is not refused appends its entry to the history, and what follows comes after. -/
theorem update_recorded (new : Request) (hnew : new.id = a.requestId) (hn : new.instances ≠ 0)
    (state : Request.State) (event : Option Request.Event) (message : String)
    {f : Unit → Step Outcome} {notes : List Notification}
    (hf : ∀ v, Recorded [] notes v (after (f ()).run v)) :
    Recorded [⟨a.requestId, event.getD .updated, a.user, s.wall, new.instances, some message⟩]
      notes w
      (after (updateRequest s a.requestId new state event a.user message >>= f).run w) := by
  obtain ⟨more, hturns⟩ :=
    updateRequest_turns hs (hnew ▸ hget) hn a.requestId state event a.user message
  obtain ⟨hok, hcluster⟩ := hturns w rfl
  rw [after_step_bind_ok hok]
  have hupdated : Recorded
      [⟨a.requestId, event.getD .updated, a.user, s.wall, new.instances, some message⟩] [] w
      (after (updateRequest s a.requestId new state event a.user message).run w) := by
    refine .of_eq ?_ ?_
    · rw [hcluster, hnew]
    · rw [hcluster, List.append_nil]
  exact hupdated.trans (hf _)

include hid

theorem revertPause_recorded (hstate : entry.state = .paused) (message : String) :
    Recorded [⟨a.requestId, .unpaused, a.user, s.wall, entry.request.instances, some message⟩] []
      w (after (revertPause s a entry message).run w) := by
  obtain ⟨more, hturns⟩ := revertPause_turns hs hstate (hid ▸ hget) a message
  have hcluster := (hturns w rfl).2
  rw [← hid]
  refine .of_eq ?_ ?_
  · exact congrArg Cluster.requestHistory hcluster
  · exact (congrArg Cluster.notifications hcluster).trans (List.append_nil _).symm

theorem revertScale_recorded {n : UInt32} (hn : n ≠ 0) (message : String) :
    Recorded [⟨a.requestId, .scaleReverted, a.user, s.wall, n, some message⟩]
      [⟨a.requestId, entry.request.instances, n, a.user, s.wall⟩] w
      (after (revertScale s a entry n message).run w) := by
  have hafter : ∀ v, Recorded [] [⟨entry.request.id, entry.request.instances, n, a.user, s.wall⟩] v
      (after (afterUpdate s a entry.request { entry.request with instances := n }).run v) :=
    afterUpdate_recorded hs a entry.request { entry.request with instances := n } rfl
  rw [hid] at hafter
  exact update_recorded hs hget { entry.request with instances := n } hid hn entry.state
    (some .scaleReverted) message hafter

theorem revertSkipHealthchecks_recorded (hn : entry.request.instances ≠ 0) (flag : Option Bool)
    (message : String) :
    Recorded [⟨a.requestId, .updated, a.user, s.wall, entry.request.instances, some message⟩] []
      w (after (revertSkipHealthchecks s a entry flag message).run w) :=
  update_recorded hs hget { entry.request with skipHealthchecks := flag } hid hn entry.state none
    message fun _ => .nothing rfl rfl

/-- An applied revert records its entry and sends its notification. -/
theorem applied_recorded {u : Undoing} (haction : u.action = a) (hentry : u.entry = entry)
    {message : String} (hmessage : u.message s = some message)
    (happlied : a.endingOn entry = .applied) :
    Recorded (u.own s) (u.notes s) w (after (revert s a entry message).run w) := by
  subst haction hentry
  -- only scales are notified and change the count of instances
  have hother : u.action.kind ≠ .scale →
      u.notes s = [] ∧ u.instances = u.entry.request.instances :=
    fun hkind => ⟨if_neg hkind, Action.instances_undone hkind u.entry⟩
  unfold revert
  cases hundo : u.action.undo with
  | bounce deployId =>
      have hkind : u.action.kind = .bounce := Action.kind_eq_bounce_iff.mpr ⟨deployId, hundo⟩
      rw [(hother (by rw [hkind]; decide)).1, Undoing.own, hkind]
      exact revertBounce_recorded s u.action deployId message w
  | pause =>
      have hkind : u.action.kind = .pause := by rw [Action.kind, hundo]; rfl
      obtain ⟨hnotes, hinstances⟩ := hother (by rw [hkind]; decide)
      rw [hnotes, Undoing.own_eq (by rw [hkind]; rfl) hmessage hinstances]
      exact revertPause_recorded hs hget hid ((Action.endingOn_pause_iff hundo).mp happlied) message
  | scale n =>
      have hkind : u.action.kind = .scale := Action.kind_eq_scale_iff.mpr ⟨n, hundo⟩
      have hinstances : u.instances = n := Action.instances_undone_scale hundo happlied
      rw [Undoing.notes, if_pos hkind, Undoing.note, hinstances,
        Undoing.own_eq (by rw [hkind]; rfl) hmessage hinstances]
      exact revertScale_recorded hs hget hid ((Action.endingOn_scale_iff hundo).mp happlied) message
  | skipHealthchecks flag =>
      have hkind : u.action.kind = .skipHealthchecks := by rw [Action.kind, hundo]; rfl
      obtain ⟨hnotes, hinstances⟩ := hother (by rw [hkind]; decide)
      rw [hnotes, Undoing.own_eq (by rw [hkind]; rfl) hmessage hinstances]
      exact revertSkipHealthchecks_recorded hs hget hid
        ((Action.endingOn_skipHealthchecks_iff hundo).mp happlied) flag message

omit hget hid in
/-- A revert that is not applied records nothing. -/
theorem unapplied_recorded (happlied : a.endingOn entry ≠ .applied) (message : String) :
    Recorded [] [] w (after (revert s a entry message).run w) := by
  unfold revert
  cases hundo : a.undo with
  | bounce deployId => exact absurd (Action.endingOn_bounce hundo) happlied
  | pause =>
      have hstate := mt (Action.endingOn_pause_iff hundo).mpr happlied
      dsimp only
      unfold revertPause
      rw [if_neg hstate]
      exact .nothing rfl rfl
  | scale n =>
      have hn := not_not.mp (mt (Action.endingOn_scale_iff hundo).mpr happlied)
      exact update_refused_recorded hs { entry.request with instances := n } hn entry.state
        (some .scaleReverted) message
  | skipHealthchecks flag =>
      have hn := not_not.mp (mt (Action.endingOn_skipHealthchecks_iff hundo).mpr happlied)
      exact update_refused_recorded hs { entry.request with skipHealthchecks := flag } hn
        entry.state none message

/-- **ONE REVERT**: while no call fails, a revert appends what it undid, if it is applied, and the
bounce that followed, and otherwise nothing. -/
theorem revert_tells {message : String}
    (hmessage : Undoing.message s ⟨a, entry, none⟩ = some message) :
    ∃ us : List Undoing, us.map (fun u => (u.action, u.entry)) =
        (if a.endingOn entry = .applied then [(a, entry)] else []) ∧
      (∀ u ∈ us, u.Sound) ∧ Tells s us w (after (revert s a entry message).run w) := by
  have hending := ofAnswer_revert hs hget hid message
  by_cases happlied : a.endingOn entry = .applied
  · have hone : ∀ {cascade}, Undoing.Sound ⟨a, entry, cascade⟩ →
        Adds (cascade.toList.map (·.cleanup s)) (cascade.toList.flatMap (·.records s))
          (cascade.toList.flatMap (·.actions s)) w (after (revert s a entry message).run w) →
        ∃ us : List Undoing, us.map (fun u => (u.action, u.entry)) = [(a, entry)] ∧
          (∀ u ∈ us, u.Sound) ∧ Tells s us w (after (revert s a entry message).run w) :=
      fun {cascade} hsound hadds => ⟨[⟨a, entry, cascade⟩], rfl,
        List.forall_mem_singleton.mpr hsound,
        (applied_recorded (u := ⟨a, entry, cascade⟩) hs hget hid rfl rfl hmessage happlied).tells
          hsound hadds⟩
    rw [if_pos happlied]
    rcases revert_bounces (s := s) a entry message w with
      hadds | ⟨⟨n, hundo, -⟩, -, hadds | ⟨c, hscale, hold, -, -, hadds, hend⟩⟩
    · exact hone (Undoing.sound_of_eq_none rfl) hadds
    · exact hone (Undoing.sound_of_eq_none rfl) hadds
    · have hkind : a.kind = .scale := Action.kind_eq_scale_iff.mpr ⟨n, hundo⟩
      -- the revert was applied, so that the bounce came to its end
      have hstored : c.stage = .stored := by
        refine hend.resolve_right ?_
        rintro ⟨why, hwhy⟩
        rw [hwhy, happlied] at hending
        exact nomatch hending
      have hsound : Undoing.Sound ⟨a, entry, some c⟩ := by
        rintro _ ⟨⟩
        exact ⟨hkind, hscale, hold, hold ▸ hid, hstored⟩
      refine hone hsound ?_
      show Adds [c.cleanup s] ([c].flatMap _) ([c].flatMap _) w _
      rw [List.flatMap_singleton, List.flatMap_singleton]
      exact hadds
  · have hrecorded := unapplied_recorded hs happlied message (w := w)
    rw [if_neg happlied]
    refine ⟨[], rfl, List.forall_mem_nil _, ?_⟩
    -- a bounce follows an applied scale only
    have hadds : Adds [] [] [] w (after (revert s a entry message).run w) := by
      rcases revert_bounces (s := s) a entry message w with hadds | ⟨⟨n, hundo, hn⟩, -⟩
      · exact hadds
      · exact absurd ((Action.endingOn_scale_iff hundo).mpr hn) happlied
    refine ⟨?_, hrecorded.notifications, hadds.cleanups, hadds.saved⟩
    exact hrecorded.history_eq (List.forall_mem_nil _) hadds.bounces

end Revert

/-! ## Visits -/

/-- The action and the entry that it is undone against, if a visit that finds the entry is to undo
the action. -/
def Conditions.undone? (s : Conditions) (a : Action) (found : Option Request.Entry) :
    Option (Action × Request.Entry) :=
  (found.filter fun entry => s.foreseen a (some entry) = .applied).map fun entry => (a, entry)

theorem undone?_some (entry : Request.Entry) : s.undone? a (some entry) =
    if s.foreseen a (some entry) = .applied then some (a, entry) else none := by
  rw [Conditions.undone?, Option.filter_some]
  by_cases happlied : s.foreseen a (some entry) = .applied
  · rw [if_pos happlied, if_pos (decide_eq_true happlied)]
    rfl
  · rw [if_neg happlied, if_neg (by simpa using happlied)]
    rfl

theorem undone?_eq_none (found : Option Request.Entry)
    (h : ∀ entry, found = some entry → s.foreseen a (some entry) ≠ .applied) :
    s.undone? a found = none := by
  cases found with
  | none => rfl
  | some entry => rw [undone?_some, if_neg (h entry rfl)]

theorem foreseen_due {lifetime : UInt64} (hdue : a.isDue s.now s.config = .ok true)
    (hlives : a.lifetime s.config = .ok lifetime) (entry : Request.Entry) :
    s.foreseen a (some entry) = a.endingOn entry := by
  unfold Conditions.foreseen
  rw [standing_of_isDue hlives hdue]

theorem foreseen_ne_applied (h : a.isDue s.now s.config ≠ .ok true)
    (found : Option Request.Entry) : s.foreseen a found ≠ .applied := by
  unfold Conditions.foreseen
  cases hstanding : a.standing s.now s.config with
  | malformed why => exact nofun
  | waiting => exact nofun
  | due lifetime => exact absurd (of_standing_due hstanding).1 h

/-- **ONE VISIT**: while no call fails, a visit appends what it undid and nothing else. -/
theorem Happens.tells (hs : s.Reliable) (h : Happens s (.visit kind a) w w')
    (hkeyed : w.cluster.Keyed) :
    ∃ us : List Undoing, us.map (fun u => (u.action, u.entry)) =
        (s.undone? a (w.cluster.requests.get? a.requestId)).toList ∧
      (∀ u ∈ us, u.Sound) ∧ Tells s us w w' := by
  -- a visit that undoes nothing
  have hnothing : (∀ entry, w.cluster.requests.get? a.requestId = some entry →
      s.foreseen a (some entry) ≠ .applied) → w'.cluster = w.cluster → w'.saved = w.saved →
      ∃ us : List Undoing, us.map (fun u => (u.action, u.entry)) =
          (s.undone? a (w.cluster.requests.get? a.requestId)).toList ∧
        (∀ u ∈ us, u.Sound) ∧ Tells s us w w' := by
    intro hfound hcluster hsaved
    refine ⟨[], ?_, List.forall_mem_nil _, .of_eq hcluster hsaved⟩
    rw [undone?_eq_none _ hfound]
    rfl
  cases h with
  | waiting due quiet =>
      refine hnothing (fun entry _ => foreseen_ne_applied ?_ _) quiet.cluster quiet.saved
      rw [due]
      exact nofun
  | malformed due quiet =>
      refine hnothing (fun entry _ => foreseen_ne_applied ?_ _) quiet.cluster quiet.saved
      rw [due]
      exact nofun
  | missing due absent quiet =>
      refine hnothing (fun entry hentry => ?_) quiet.cluster quiet.saved
      exact nomatch absent.symm.trans hentry
  | @reverted _ _ _ w₁ _ lifetime entry due lives present before quiet =>
      have hid : entry.request.id = a.requestId := hkeyed a.requestId entry present
      have hmessage : Undoing.message s ⟨a, entry, none⟩ = some (a.expiryMessage lifetime) := by
        rw [Undoing.message, lives, a.expiryMessage_eq]
        rfl
      obtain ⟨us, hus, hsound, htells⟩ :=
        revert_tells hs (before.cluster ▸ present) hid hmessage (w := w₁)
      refine ⟨us, hus.trans ?_, hsound, ?_⟩
      · rw [present, undone?_some, foreseen_due due lives entry]
        split <;> rfl
      · have hbefore : Tells s [] w w₁ := .of_eq before.cluster before.saved
        have hquiet : Tells s [] (after (revert s a entry (a.expiryMessage lifetime)).run w₁) w' :=
          .of_eq quiet.cluster quiet.saved
        have hall := hbefore.trans (htells.trans hquiet)
        rwa [List.nil_append, List.append_nil] at hall

/-- Visits for different requests append what they undid, one after another. -/
theorem Ends.tells (hs : s.Reliable) {es : List (Action × Ending)} (h : Ends s kind es w w')
    (hkeyed : w.cluster.Keyed)
    (hes : (es.map Prod.fst).Pairwise fun a b => a.requestId ≠ b.requestId) :
    ∃ us : List Undoing, us.map (fun u => (u.action, u.entry)) =
        (es.map Prod.fst).filterMap
          (fun a => s.undone? a (w.cluster.requests.get? a.requestId)) ∧
      (∀ u ∈ us, u.Sound) ∧ Tells s us w w' := by
  induction h with
  | done => exact ⟨[], rfl, List.forall_mem_nil _, .of_eq rfl rfl⟩
  | @next a rest w w₁ w' first others ih =>
      obtain ⟨hfirst, hrest⟩ := List.pairwise_cons.mp hes
      obtain ⟨us, hus, hsound, htells⟩ := first.tells hs hkeyed
      obtain ⟨us', hus', hsound', htells'⟩ := ih (first.keyed hkeyed) hrest
      refine ⟨us ++ us', ?_, fun u hu => ?_, htells.trans htells'⟩
      · have hothers : (rest.map Prod.fst).filterMap
            (fun b => s.undone? b (w₁.cluster.requests.get? b.requestId)) =
          (rest.map Prod.fst).filterMap
            (fun b => s.undone? b (w.cluster.requests.get? b.requestId)) := by
          refine List.filterMap_congr fun b hb => ?_
          rw [first.get?_other hs hkeyed (hfirst b hb)]
        rw [List.map_append, hus, hus', hothers, List.map_cons, List.filterMap_cons]
        cases s.undone? a (w.cluster.requests.get? a.requestId) with
        | none => rfl
        | some x => rfl
      · exact (List.mem_append.mp hu).elim (hsound u) (hsound' u)

end Poll

end Lapse
