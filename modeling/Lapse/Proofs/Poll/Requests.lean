import Lapse.Proofs.Cluster
import Lapse.Proofs.Poll.Schedule

/-!
# What a poll does to the requests

A revert changes one field of one entry: a pause the state, a scale the count of instances, and the
flag that skips health checks itself.  It works on the entry as it is at that moment, so the
reverts of one poll for one request add up: the entry that a poll leaves is the old one with each
field as the due action of its kind wants it.
-/

namespace Lapse

/-- The count of instances that undoing restores. -/
def Action.Undo.instances? : Undo → Option UInt32
  | .scale n => some n
  | _ => none

/-- The flag for health checks that undoing restores. -/
def Action.Undo.flag? : Undo → Option (Option Bool)
  | .skipHealthchecks flag => some flag
  | _ => none

/-- The entry of a request after an action was undone. -/
def Action.undone (a : Action) (e : Request.Entry) : Request.Entry :=
  match a.undo with
  | .bounce _ => e
  | .pause => if e.state = .paused then { e with state := .active } else e
  | .scale n => if n = 0 then e else { e with request.instances := n }
  | .skipHealthchecks flag =>
    if e.request.instances = 0 then e else { e with request.skipHealthchecks := flag }

namespace Poll

/-- The action of a kind that is stored for a request, if it is due. -/
def dueAction? (s : Conditions) (st : Store) (kind : Kind) (r : String) : Option Action :=
  (st.action? kind r).filter s.isDue

/-- The entry of a request after a poll of a store: paused no more if a pause is due, with the
count of instances that a due scale restores unless that is zero, and with the flag for health
checks that a due action on it restores unless there are no instances. -/
def revertedEntry (s : Conditions) (st : Store) (r : String) (e : Request.Entry) :
    Request.Entry :=
  let instances :=
    match (dueAction? s st .scale r).bind (·.undo.instances?) with
    | some n => if n = 0 then e.request.instances else n
    | none => e.request.instances
  let skipHealthchecks :=
    match (dueAction? s st .skipHealthchecks r).bind (·.undo.flag?) with
    | some flag => if instances = 0 then e.request.skipHealthchecks else flag
    | none => e.request.skipHealthchecks
  { request := { e.request with instances, skipHealthchecks }
    state :=
      if e.state = .paused ∧ (dueAction? s st .pause r).isSome then .active else e.state }

variable {s : Conditions}

/-! ## One revert -/

/-- Calling off a bounce keeps the requests. -/
theorem callOffFrame_requests (a : Action) :
    CallOffFrame s a fun w w' => w'.cluster.requests = w.cluster.requests where
  toFrame := Frame.ofCluster (·.requests)
  cleanupRemoved _ _ _ := rfl
  updatesRemoved _ _ _ _ _ := rfl
  pendingRemoved _ _ _ := rfl
  enqueued _ _ _ := rfl

/-- The bounce after a scale keeps the requests. -/
theorem cascadeFrame_requests (a : Action) (old : Request) :
    CascadeFrame s a old fun w w' => w'.cluster.requests = w.cluster.requests where
  toFrame := Frame.ofCluster (·.requests)
  cleanupCreated w deployId message id := by
    obtain ⟨cleanups, hc⟩ :=
      w.cluster.createCleanup_eq (cascadeCleanup s a old.id deployId message id)
    show (w.cluster.createCleanup _).2.requests = _
    rw [hc]
  bounced _ _ := rfl
  stored _ _ _ _ _ _ := rfl

/-- A request that is there is replaced, unless it is to have no instances. -/
theorem updateRequest_turns (hs : s.Reliable) {c : Cluster} {new : Request} {old : Request.Entry}
    (h : c.requests.get? new.id = some old) (hn : new.instances ≠ 0) (during : String)
    (state : Request.State) (event : Option Request.Event) (user message : String) :
    ∃ more, Turns (updateRequest s during new state event user message) c ()
      { c with
        requests := c.requests.map fun r e => if r = new.id then ⟨new, state⟩ else e
        requestHistory := c.requestHistory ++
          [⟨new.id, event.getD .updated, user, s.wall, new.instances, some message⟩]
        pending := c.pending ++ more } := by
  have hin : c.requests.contains new.id = true := OrderedMap.contains_iff.mpr ⟨old, h⟩
  obtain ⟨more, -, hok⟩ := Cluster.updateRequest_of_contains hn hin
  rw [← OrderedMap.insert_eq_map h]
  exact ⟨more, Turns.tryChange (hs.spares _) hok⟩

/-- A request without instances is refused. -/
theorem updateRequest_refused (hs : s.Reliable) {new : Request} (hn : new.instances = 0)
    (during : String) (state : Request.State) (event : Option Request.Event)
    (user message : String) (w : World) :
    answer (updateRequest s during new state event user message).run w =
        .error (.noInstances new.id) ∧
      (after (updateRequest s during new state event user message).run w).cluster =
        w.cluster := by
  refine run_call_tryChange_error (hs.spares _) ?_
  rw [Cluster.updateRequest, if_pos hn]

/-- A paused request that is there is made active. -/
theorem revertPause_turns (hs : s.Reliable) {c : Cluster} {entry : Request.Entry}
    (hstate : entry.state = .paused) (h : c.requests.get? entry.request.id = some entry)
    (a : Action) (message : String) :
    ∃ more, Turns (revertPause s a entry message) c .applied
      { c with
        requests := c.requests.map fun r e =>
          if r = entry.request.id then { entry with state := .active } else e
        requestHistory := c.requestHistory ++
          [⟨entry.request.id, .unpaused, a.user, s.wall, entry.request.instances, some message⟩]
        pending := c.pending ++ more } := by
  obtain ⟨more, -, hok⟩ := Cluster.unpause_of_get? h
  unfold revertPause
  rw [if_pos hstate, ← OrderedMap.insert_eq_map h]
  exact ⟨more, (Turns.say _ _ _).bind ((Turns.tryChange (hs.spares _) hok).bind (Turns.pure _ _))⟩

/-- The requests after an action was undone. -/
def undoneRequests (a : Action) (requests : OrderedMap String Request.Entry) :
    OrderedMap String Request.Entry :=
  requests.map fun r e => if r = a.requestId then a.undone e else e

/-- Undoing an action is known by what it does to the entry of its request. -/
theorem undoneRequests_eq {a : Action} {requests : OrderedMap String Request.Entry}
    {entry : Request.Entry} (h : requests.get? a.requestId = some entry) :
    undoneRequests a requests =
      requests.map fun r e => if r = a.requestId then a.undone entry else e := by
  refine OrderedMap.map_congr fun r e hr => ?_
  by_cases heq : r = a.requestId
  · rw [if_pos heq, if_pos heq]
    rw [heq, h] at hr
    rw [Option.some.inj hr]
  · rw [if_neg heq, if_neg heq]

theorem undoneRequests_self {a : Action} {requests : OrderedMap String Request.Entry}
    {entry : Request.Entry} (h : requests.get? a.requestId = some entry)
    (hentry : a.undone entry = entry) : undoneRequests a requests = requests := by
  refine Eq.trans (OrderedMap.map_congr fun r e hr => ?_) (OrderedMap.map_id requests)
  by_cases heq : r = a.requestId
  · rw [if_pos heq]
    rw [heq, h] at hr
    rw [← Option.some.inj hr, hentry]
  · rw [if_neg heq]

section Revert

variable (hs : s.Reliable) {a : Action} {entry : Request.Entry} {w : World}
  (hget : w.cluster.requests.get? a.requestId = some entry) (hid : entry.request.id = a.requestId)

include hs hget hid

theorem requests_revertPause (hundo : a.undo = .pause) (message : String) :
    (after (revertPause s a entry message).run w).cluster.requests =
      undoneRequests a w.cluster.requests := by
  by_cases hstate : entry.state = .paused
  · obtain ⟨more, hturns⟩ := revertPause_turns hs hstate (hid ▸ hget) a message
    rw [(hturns w rfl).2, undoneRequests_eq hget, Action.undone, hundo]
    dsimp only
    rw [if_pos hstate, hid]
  · unfold revertPause
    rw [if_neg hstate]
    refine (undoneRequests_self hget ?_).symm
    rw [Action.undone, hundo]
    exact if_neg hstate

/-- Updating the request to what undoing its action makes of it undoes the action, also when the
update is refused. -/
theorem requests_updateRequest (new : Request) (hnew : new.id = entry.request.id)
    (hundone : a.undone entry = if new.instances = 0 then entry else ⟨new, entry.state⟩)
    (during : String) (event : Option Request.Event) (user message : String) :
    (after (updateRequest s during new entry.state event user message).run w).cluster.requests =
      undoneRequests a w.cluster.requests := by
  by_cases hn : new.instances = 0
  · have hcluster := (updateRequest_refused hs hn during entry.state event user message w).2
    rw [if_pos hn] at hundone
    rw [hcluster, undoneRequests_self hget hundone]
  · have hnew' : new.id = a.requestId := hnew.trans hid
    obtain ⟨more, hturns⟩ :=
      updateRequest_turns hs (hnew' ▸ hget) hn during entry.state event user message
    rw [if_neg hn] at hundone
    rw [(hturns w rfl).2, undoneRequests_eq hget, hundone, hnew']

theorem requests_revertScale {n : UInt32} (hundo : a.undo = .scale n) (message : String) :
    (after (revertScale s a entry n message).run w).cluster.requests =
      undoneRequests a w.cluster.requests := by
  have hundone : a.undone entry =
      if n = 0 then entry else ⟨{ entry.request with instances := n }, entry.state⟩ := by
    rw [Action.undone, hundo]
  rw [← requests_updateRequest hs hget hid { entry.request with instances := n } rfl hundone
    a.requestId (some .scaleReverted) a.user message]
  unfold revertScale
  -- neither the bounce that may follow nor the notification touches a request
  have hF := Frame.ofCluster Cluster.requests
  have hnotified := hF.notifyScaled (s := s) { entry.request with instances := n }
    entry.request.instances a.user (fun _ => rfl) a.requestId
  refine hF.step_rest _ (fun _ => ?_) w
  dsimp only
  split
  · refine hF.step_bind ?_ fun _ => hnotified
    apply (cascadeFrame_requests a entry.request).bounceAfterScale
    rfl
  · exact hnotified

theorem requests_revertSkipHealthchecks {flag : Option Bool}
    (hundo : a.undo = .skipHealthchecks flag) (message : String) :
    (after (revertSkipHealthchecks s a entry flag message).run w).cluster.requests =
      undoneRequests a w.cluster.requests := by
  have hundone : a.undone entry = if entry.request.instances = 0 then entry
      else ⟨{ entry.request with skipHealthchecks := flag }, entry.state⟩ := by
    rw [Action.undone, hundo]
  rw [← requests_updateRequest hs hget hid { entry.request with skipHealthchecks := flag } rfl
    hundone a.requestId none a.user message]
  unfold revertSkipHealthchecks
  have hF := Frame.ofCluster Cluster.requests
  exact hF.step_rest _ (fun _ => hF.step_pure _) w

/-- A revert undoes its action in the entry of its request, and leaves the other entries. -/
theorem requests_revert (message : String) :
    (after (revert s a entry message).run w).cluster.requests =
      undoneRequests a w.cluster.requests := by
  unfold revert
  rcases hundo : a.undo with deployId | _ | n | flag
  · rw [(callOffFrame_requests a).revertBounce deployId message w]
    refine (undoneRequests_self hget ?_).symm
    rw [Action.undone, hundo]
  · exact requests_revertPause hs hget hid hundo message
  · exact requests_revertScale hs hget hid hundo message
  · exact requests_revertSkipHealthchecks hs hget hid hundo message

end Revert

/-! ## One event -/

/-- What an event does to the entry of a request. -/
def Event.onEntry (s : Conditions) (r : String) (e : Request.Entry) : Event → Request.Entry
  | .list _ => e
  | .visit _ a => if r = a.requestId ∧ s.isDue a = true then a.undone e else e

theorem undone_id (a : Action) (e : Request.Entry) : (a.undone e).request.id = e.request.id := by
  rw [Action.undone]
  split
  · rfl
  · split <;> rfl
  · split <;> rfl
  · split <;> rfl

theorem onEntry_id (r : String) (e : Request.Entry) (ev : Event) :
    (ev.onEntry s r e).request.id = e.request.id := by
  cases ev with
  | list kind => rfl
  | visit kind a =>
      rw [Event.onEntry]
      split
      · exact undone_id a e
      · rfl

/-- A visit that leaves the requests does nothing to the entries that are there. -/
theorem map_onEntry_self {w : World} {kind : Kind} {a : Action}
    (h : ∀ e, w.cluster.requests.get? a.requestId = some e → s.isDue a = false) :
    w.cluster.requests.map (fun r e => (Event.visit kind a).onEntry s r e) =
      w.cluster.requests := by
  refine Eq.trans (OrderedMap.map_congr fun r e hr => ?_) (OrderedMap.map_id _)
  rw [Event.onEntry, if_neg]
  rintro ⟨rfl, hdue⟩
  rw [h e hr] at hdue
  exact nomatch hdue

/-- Every event does to the requests what it does to each entry. -/
theorem Happens.requests (hs : s.Reliable) {ev : Event} {w w' : World} (h : Happens s ev w w')
    (hkeyed : w.cluster.Keyed) :
    w'.cluster.requests = w.cluster.requests.map fun r e => ev.onEntry s r e := by
  cases h with
  | listed quiet =>
      rw [quiet.cluster]
      exact (OrderedMap.map_id _).symm
  | waiting due quiet =>
      rw [quiet.cluster]
      refine (map_onEntry_self fun _ _ => ?_).symm
      rw [Conditions.isDue, due]
  | malformed due quiet =>
      rw [quiet.cluster]
      refine (map_onEntry_self fun _ _ => ?_).symm
      rw [Conditions.isDue, due]
  | missing due absent quiet =>
      rw [quiet.cluster]
      refine (map_onEntry_self fun e he => ?_).symm
      exact nomatch absent.symm.trans he
  | @reverted kind a _ w₁ _ lifetime entry due lives present before quiet =>
      have hget : w₁.cluster.requests.get? a.requestId = some entry := before.cluster ▸ present
      have hid : entry.request.id = a.requestId := hkeyed a.requestId entry present
      have hdue : s.isDue a = true := by rw [Conditions.isDue, due]
      rw [quiet.cluster]
      refine (requests_revert hs hget hid _).trans ?_
      rw [before.cluster, undoneRequests]
      refine OrderedMap.map_congr fun r e _ => ?_
      rw [Event.onEntry]
      by_cases hr : r = a.requestId
      · rw [if_pos hr, if_pos ⟨hr, hdue⟩]
      · rw [if_neg hr, if_neg fun h => hr h.1]

/-! ## A poll -/

theorem keyed_of_map {c c' : Cluster} (h : c.Keyed) {f : String → Request.Entry → Request.Entry}
    (hf : ∀ r e, (f r e).request.id = e.request.id) (hmap : c'.requests = c.requests.map f) :
    c'.Keyed := by
  intro r e he
  rw [hmap, OrderedMap.get?_map] at he
  obtain ⟨old, hold, rfl⟩ := Option.map_eq_some_iff.mp he
  rw [hf]
  exact h r old hold

theorem foldl_onEntry_id (r : String) (e : Request.Entry) (evs : List Event) :
    (evs.foldl (fun e ev => ev.onEntry s r e) e).request.id = e.request.id := by
  induction evs generalizing e with
  | nil => rfl
  | cons ev rest ih => rw [List.foldl_cons, ih, onEntry_id]

/-- Events one after another do to each entry what each of them does. -/
theorem Run.requests (hs : s.Reliable) {es : List Event} {w w' : World} (h : Run s es w w')
    (hkeyed : w.cluster.Keyed) : w'.cluster.requests =
      w.cluster.requests.map fun r e => es.foldl (fun e ev => ev.onEntry s r e) e := by
  refine h.induct (fun done w' => w'.cluster.requests =
    w.cluster.requests.map fun r e => done.foldl (fun e ev => ev.onEntry s r e) e) ?_ ?_
  · exact (OrderedMap.map_id _).symm
  · intro done ev rest w₁ w₂ _ hdone hev
    have hkeyed₁ : w₁.cluster.Keyed :=
      keyed_of_map hkeyed (fun r e => foldl_onEntry_id r e done) hdone
    rw [hev.requests hs hkeyed₁, hdone, OrderedMap.map_map]
    refine OrderedMap.map_congr fun r e _ => ?_
    rw [List.foldl_append]
    rfl

/-- A poll does to each entry what the events of its schedule do, one after another. -/
theorem requests_poll (hs : s.Reliable) {w : World} (hkeyed : w.cluster.Keyed) :
    (after (poll s) w).cluster.requests = w.cluster.requests.map fun r e =>
      (schedule w.store).foldl (fun e ev => ev.onEntry s r e) e :=
  (poll_run hs.sparesPoll w).1.requests hs hkeyed

/-- Of a kind, only the due action of the request matters to the entry of a request. -/
theorem foldl_visits {st : Store} (hst : st.WellKeyed) (kind : Kind) (r : String)
    (e : Request.Entry) :
    ((st.actions kind).map (Event.visit kind)).foldl (fun e ev => ev.onEntry s r e) e =
      (dueAction? s st kind r).elim e fun a => a.undone e := by
  -- the visits to actions for other requests do nothing
  have hfold : ((st.actions kind).map (Event.visit kind)).foldl (fun e ev => ev.onEntry s r e) e =
      ((st.actions kind).filter fun a => a.requestId = r).foldl
        (fun e a => if s.isDue a = true then a.undone e else e) e := by
    rw [List.foldl_map, List.foldl_filter]
    congr 1
    funext e a
    rw [Event.onEntry]
    by_cases hr : a.requestId = r
    · simp [hr]
    · simp [hr, Ne.symm hr]
  rw [hfold, hst.filter_actions kind r, dueAction?]
  cases st.action? kind r with
  | none => rfl
  | some a =>
      by_cases hdue : s.isDue a = true
      · rw [Option.filter_some_pos hdue]
        exact if_pos hdue
      · rw [Option.filter_some_neg (Bool.eq_false_iff.mpr hdue)]
        exact if_neg hdue

/-- The due action that is stored under a kind is of that kind. -/
theorem kind_of_dueAction? {st : Store} (hst : st.WellKeyed) {kind : Kind} {r : String}
    {a : Action} (h : dueAction? s st kind r = some a) : a.undo.kind = kind :=
  (hst.of_action? (Option.filter_eq_some_iff.mp h).1).1

/-- The field of an entry that actions of a kind are about, as an action of that kind, if there is
one, restores it. -/
def restored (kind : Kind) (due : Option Action) (e : Request.Entry) : Request.Entry :=
  match kind with
  | .bounce => e
  | .pause => { e with state := if e.state = .paused ∧ due.isSome then .active else e.state }
  | .scale =>
    { e with request.instances :=
        match due.bind (·.undo.instances?) with
        | some n => if n = 0 then e.request.instances else n
        | none => e.request.instances }
  | .skipHealthchecks =>
    { e with request.skipHealthchecks :=
        match due.bind (·.undo.flag?) with
        | some flag => if e.request.instances = 0 then e.request.skipHealthchecks else flag
        | none => e.request.skipHealthchecks }

theorem elim_undone {kind : Kind} {due : Option Action}
    (h : ∀ a, due = some a → a.undo.kind = kind) (e : Request.Entry) :
    due.elim e (fun a => a.undone e) = restored kind due e := by
  cases due with
  | none => cases kind <;> simp [restored]
  | some a =>
      rw [← h a rfl]
      show a.undone e = _
      rw [Action.undone]
      cases hundo : a.undo with
      | bounce deployId => rfl
      | pause =>
          by_cases hstate : e.state = .paused
          · simp [restored, Action.Undo.kind, hstate]
          · simp [restored, Action.Undo.kind, hstate]
      | scale n =>
          by_cases hn : n = 0
          · simp [restored, Action.Undo.kind, Action.Undo.instances?, hundo, hn]
          · simp [restored, Action.Undo.kind, Action.Undo.instances?, hundo, hn]
      | skipHealthchecks flag =>
          obtain ⟨⟨id, instances, old, bounces⟩, state⟩ := e
          by_cases hn : instances = 0
          · simp [restored, Action.Undo.kind, Action.Undo.flag?, hundo, hn]
          · simp [restored, Action.Undo.kind, Action.Undo.flag?, hundo, hn]

/-- **REQUESTS**: after a poll whose calls do not fail the requests are those that were there, each
with the entry that the due actions stored for it ask for. -/
theorem poll_requests (hs : s.Reliable) (w : World) (hst : w.store.WellKeyed)
    (hkeyed : w.cluster.Keyed) :
    (after (poll s) w).cluster.requests = w.cluster.requests.map (revertedEntry s w.store) := by
  rw [requests_poll hs hkeyed]
  refine OrderedMap.map_congr fun r e _ => ?_
  have hkind := fun kind a (h : dueAction? s w.store kind r = some a) => kind_of_dueAction? hst h
  -- one kind after another, each on the entry that the kinds before it left
  rw [schedule, scheduleOf, List.foldl_flatMap]
  show (Kind.all.foldl (fun e kind =>
    ((w.store.actions kind).map (Event.visit kind)).foldl (fun e ev => ev.onEntry s r e) e) e) = _
  rw [funext fun e => funext fun kind => foldl_visits hst kind r e]
  rw [Kind.all, List.foldl_cons, List.foldl_cons, List.foldl_cons, List.foldl_cons, List.foldl_nil]
  rw [elim_undone (hkind .bounce), elim_undone (hkind .pause), elim_undone (hkind .scale),
    elim_undone (hkind .skipHealthchecks)]
  rfl

/-- A paused request that was scaled to seven instances, all of it for five seconds. -/
def pausedWeb : World where
  store :=
    let action (id : String) (undo : Action.Undo) : Action :=
      { requestId := "web", actionId := id, user := "alice", startMillis := 0
        terms := { durationMillis := some 5000 }, undo }
    ((Store.save .empty (action "p-1" .pause)).save (action "s-1" (.scale 3))).save
      (action "h-1" (.skipHealthchecks (some true)))
  cluster.requests := OrderedMap.empty.insert "web" ⟨{ id := "web", instances := 7 }, .paused⟩

theorem pausedWeb_wellKeyed : pausedWeb.store.WellKeyed :=
  ((Store.wellKeyed_empty.save (by decide +kernel)).save (by decide +kernel)).save
    (by decide +kernel)

theorem pausedWeb_keyed : pausedWeb.cluster.Keyed :=
  Cluster.keyed_empty.insert (show Request.id { id := "web", instances := 7 } = "web" from rfl) rfl

theorem poll_requests_pausedWeb :
    (after (poll (.calm 10000)) pausedWeb).cluster.requests =
      OrderedMap.empty.insert "web"
        ⟨{ id := "web", instances := 3, skipHealthchecks := some true }, .active⟩ := by
  rw [poll_requests (Conditions.reliable_calm 10000) pausedWeb pausedWeb_wellKeyed pausedWeb_keyed]
  decide +kernel

end Poll

end Lapse
