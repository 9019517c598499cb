import Lapse.Proofs.Cluster
import Lapse.Proofs.Poll.Schedule

/-!
# What belongs to a request

All requests share the lists of the cluster and the table of the store, but every entry names the
request that it belongs to.  The share of a request is what is left when all others are taken away:
its entries in every list, and the records under its keys.  An operation for a request does to its
share what it does to the cluster, and nothing to the share of another.  So a revert for one request
leaves the share of every other as it is, whatever fails.
-/

namespace Lapse

namespace Cluster

/-- The part of a cluster that belongs to a request. -/
def only (c : Cluster) (r : String) : Cluster where
  requests := c.requests.filter fun k _ => k = r
  inUseDeploys := c.inUseDeploys.filter fun k _ => k = r
  taskCleanups := c.taskCleanups.filter fun cleanup => cleanup.taskId.requestId = r
  taskHistories := c.taskHistories.filter fun h => h.taskId.requestId = r
  pending := c.pending.filter fun p => p.requestId = r
  requestCleanups := c.requestCleanups.filter fun cleanup => cleanup.requestId = r
  requestHistory := c.requestHistory.filter fun record => record.requestId = r
  notifications := c.notifications.filter fun n => n.requestId = r

/-! ## Look-up in a share -/

theorem get?_filter_key {β : Type} (m : OrderedMap String β) (r : String) :
    (m.filter fun k _ => k = r).get? r = m.get? r := by
  rw [OrderedMap.get?_filter]
  cases m.get? r with
  | none => rfl
  | some v => exact Option.filter_some_pos (decide_eq_true rfl)

theorem get?_requests_only (c : Cluster) (r : String) :
    (c.only r).requests.get? r = c.requests.get? r := get?_filter_key c.requests r

theorem get?_inUseDeploys_only (c : Cluster) (r : String) :
    (c.only r).inUseDeploys.get? r = c.inUseDeploys.get? r := get?_filter_key c.inUseDeploys r

/-! ## Entries of others -/

theorem filter_insert_other {β : Type} (m : OrderedMap String β) {r r' : String} (h : r' ≠ r)
    (v : β) : (m.insert r' v).filter (fun k _ => k = r) = m.filter fun k _ => k = r := by
  refine OrderedMap.ext_get? fun k => ?_
  rw [OrderedMap.get?_filter, OrderedMap.get?_filter, OrderedMap.get?_insert]
  by_cases hk : k = r'
  · -- the new entry is not of the share, and neither is one that it replaces
    have hkr : k ≠ r := fun heq => h (hk.symm.trans heq)
    simp [hkr]
  · rw [if_neg hk]

section Lists

variable {α : Type} (owner : α → String) {r : String} (l : List α)

theorem filter_append_other {more : List α} (h : ∀ x ∈ more, owner x ≠ r) :
    (l ++ more).filter (fun x => owner x = r) = l.filter fun x => owner x = r := by
  have hnone : more.filter (fun x => owner x = r) = [] :=
    List.filter_eq_nil_iff.mpr fun x hx hp => h x hx (of_decide_eq_true hp)
  rw [List.filter_append, hnone, List.append_nil]

theorem filter_concat_other {x : α} (h : owner x ≠ r) :
    (l ++ [x]).filter (fun x => owner x = r) = l.filter fun x => owner x = r :=
  filter_append_other owner l fun _ hy => List.mem_singleton.mp hy ▸ h

variable [DecidableEq α]

theorem filter_erase_other {x : α} (h : owner x ≠ r) :
    (l.erase x).filter (fun x => owner x = r) = l.filter fun x => owner x = r := by
  induction l with
  | nil => rfl
  | cons y rest ih =>
      by_cases hy : y = x
      · subst hy
        rw [List.erase_cons_head, List.filter_cons_of_neg (by simpa using h)]
      · rw [List.erase_cons_tail (by simpa using hy), List.filter_cons, List.filter_cons, ih]

theorem filter_ne_other {x : α} (h : owner x ≠ r) :
    (l.filter (· ≠ x)).filter (fun x => owner x = r) = l.filter fun x => owner x = r := by
  rw [List.filter_filter]
  refine List.filter_congr fun y _ => ?_
  by_cases hy : y = x
  · subst hy
    simp [h]
  · simp [hy]

end Lists

theorem filter_changeHistory_other {t : Task.Id} {f : Task.History → Task.History} {r : String}
    (hf : ∀ h, (f h).taskId = h.taskId) (ht : t.requestId ≠ r) (l : List Task.History) :
    (changeHistory t f l).filter (fun h => h.taskId.requestId = r) =
      l.filter fun h => h.taskId.requestId = r := by
  induction l with
  | nil =>
      rw [changeHistory, List.filter_cons_of_neg]
      simpa [hf] using ht
  | cons h rest ih =>
      rw [changeHistory]
      split
      · next heq =>
        have hother : h.taskId.requestId ≠ r := heq ▸ ht
        rw [List.filter_cons_of_neg (by simpa [hf] using hother),
          List.filter_cons_of_neg (by simpa using hother)]
      · rw [List.filter_cons, List.filter_cons, ih]

theorem only_createCleanup_other (c : Cluster) {cleanup : Request.Cleanup} {r : String}
    (h : cleanup.requestId ≠ r) : (c.createCleanup cleanup).2.only r = c.only r := by
  rw [createCleanup]
  split
  · rfl
  · exact congrArg (fun l => { c.only r with requestCleanups := l })
      (filter_concat_other (·.requestId) c.requestCleanups h)

/-- What a change of one request appends belongs to it. -/
theorem only_changed_other (c : Cluster) {entry : Request.Entry} {record : Request.Record}
    {more : List Request.Pending} {r r' : String} (hr : r' ≠ r) (hrecord : record.requestId = r')
    (hmore : ∀ p ∈ more, p.requestId = r') :
    Cluster.only
        { c with
          requests := c.requests.insert r' entry
          requestHistory := c.requestHistory ++ [record]
          pending := c.pending ++ more } r =
      c.only r := by
  have hrequests := filter_insert_other c.requests hr entry
  have hhistory := filter_concat_other (·.requestId) c.requestHistory (r := r) (x := record)
    fun h => hr (hrecord.symm.trans h)
  have hpending : (c.pending ++ more).filter (·.requestId = r) =
      c.pending.filter (·.requestId = r) :=
    filter_append_other (·.requestId) c.pending fun p hp h => hr ((hmore p hp).symm.trans h)
  rw [only, only, hrequests]
  dsimp only at hhistory hpending ⊢
  rw [hhistory, hpending]

/-! ## Operations on the share -/

section Own

variable (c : Cluster) {r : String}

theorem filter_insert_own {β : Type} (m : OrderedMap String β) (r : String) (v : β) :
    (m.insert r v).filter (fun k _ => k = r) = (m.filter fun k _ => k = r).insert r v := by
  refine OrderedMap.ext_get? fun k => ?_
  rw [OrderedMap.get?_filter, OrderedMap.get?_insert, OrderedMap.get?_insert,
    OrderedMap.get?_filter]
  by_cases hk : k = r
  · simp [hk]
  · rw [if_neg hk, if_neg hk]

theorem filter_concat_own {α : Type} (owner : α → String) (l : List α) {x : α}
    (h : owner x = r) :
    (l ++ [x]).filter (fun x => owner x = r) = l.filter (fun x => owner x = r) ++ [x] := by
  rw [List.filter_append, List.filter_cons_of_pos (by simpa using h)]
  rfl

theorem filter_changeHistory_own {t : Task.Id} {f : Task.History → Task.History}
    (hf : ∀ h, (f h).taskId = h.taskId) (ht : t.requestId = r) (l : List Task.History) :
    (changeHistory t f l).filter (fun h => h.taskId.requestId = r) =
      changeHistory t f (l.filter fun h => h.taskId.requestId = r) := by
  induction l with
  | nil =>
      rw [changeHistory, List.filter_cons_of_pos]
      · rfl
      · simpa [hf] using ht
  | cons h rest ih =>
      by_cases heq : h.taskId = t
      · have hown : h.taskId.requestId = r := heq ▸ ht
        rw [changeHistory, if_pos heq, List.filter_cons_of_pos (by simpa [hf] using hown),
          List.filter_cons_of_pos (by simpa using hown), changeHistory, if_pos heq]
      · rw [changeHistory, if_neg heq, List.filter_cons, List.filter_cons, ih]
        split
        · rw [changeHistory, if_neg heq]
        · rfl

theorem only_enqueueForDeploy (wall : Int64) (reason : Request.PendingReason) (user : String)
    (message : Option String) (flag : Option Bool) :
    (c.enqueueForDeploy wall r reason user message flag).only r =
      (c.only r).enqueueForDeploy wall r reason user message flag := by
  rw [enqueueForDeploy, enqueueForDeploy, get?_inUseDeploys_only]
  cases c.inUseDeploys.get? r with
  | none => rfl
  | some deployId =>
      refine congrArg (fun l => { c.only r with pending := l })
        (filter_concat_own (·.requestId) c.pending ?_)
      rfl

theorem only_record {request : Request} (hr : request.id = r) (wall : Int64)
    (event : Request.Event) (user : String) (message : Option String) :
    (c.record wall request event user message).only r =
      (c.only r).record wall request event user message :=
  congrArg (fun l => { c.only r with requestHistory := l })
    (filter_concat_own (·.requestId) c.requestHistory hr)

theorem only_insert (entry : Request.Entry) :
    Cluster.only { c with requests := c.requests.insert r entry } r =
      { c.only r with requests := (c.only r).requests.insert r entry } :=
  congrArg (fun m => { c.only r with requests := m }) (filter_insert_own c.requests r entry)

theorem only_updateRequest {new : Request} (hr : new.id = r) (wall : Int64) (state : Request.State)
    (event : Option Request.Event) (user : String) (flag : Option Bool) (message : Option String) :
    (c.updateRequest wall new state event user flag message).map (·.only r) =
      (c.only r).updateRequest wall new state event user flag message := by
  have hin : (c.only r).requests.contains new.id = c.requests.contains new.id := by
    rw [OrderedMap.contains, OrderedMap.contains, hr, get?_requests_only]
  rw [updateRequest, updateRequest, hin]
  split
  · rfl
  · split
    · subst hr
      dsimp only
      split
      · refine congrArg Except.ok (?_ : Cluster.only _ _ = _)
        rw [only_enqueueForDeploy, only_record _ rfl, only_insert]
      · refine congrArg Except.ok (?_ : Cluster.only _ _ = _)
        rw [only_record _ rfl, only_insert]
    · rfl

theorem only_unpause {request : Request} (hr : request.id = r) (wall : Int64) (user : String)
    (message : Option String) (flag : Option Bool) :
    (c.unpause wall request user message flag).map (·.only r) =
      (c.only r).unpause wall request user message flag := by
  subst hr
  rw [unpause, unpause, get?_requests_only]
  cases c.requests.get? request.id with
  | none => rfl
  | some entry =>
      refine congrArg Except.ok (?_ : Cluster.only _ _ = _)
      rw [only_enqueueForDeploy, only_record _ rfl, only_insert]

theorem only_createCleanup {cleanup : Request.Cleanup} (hr : cleanup.requestId = r) :
    (c.only r).createCleanup cleanup =
      ((c.createCleanup cleanup).1, (c.createCleanup cleanup).2.only r) := by
  have hany : (c.only r).requestCleanups.any (fun old =>
        old.requestId = cleanup.requestId && old.actionId = cleanup.actionId) =
      c.requestCleanups.any fun old =>
        old.requestId = cleanup.requestId && old.actionId = cleanup.actionId := by
    refine (List.any_filter).trans (List.any_congr rfl fun old => ?_)
    by_cases hold : old.requestId = r
    · simp [hold, hr]
    · simp [hold, hr]
  rw [createCleanup, createCleanup, hany]
  split
  · rfl
  · exact congrArg (fun l => (Creation.created, { c.only r with requestCleanups := l }))
      (filter_concat_own (·.requestId) c.requestCleanups hr).symm

theorem only_notifyScaled {request : Request} (hr : request.id = r) (wall : Int64)
    (oldInstances : UInt32) (user : String) :
    (c.notifyScaled wall request oldInstances user).only r =
      (c.only r).notifyScaled wall request oldInstances user :=
  congrArg (fun l => { c.only r with notifications := l })
    (filter_concat_own (·.requestId) c.notifications hr)

theorem only_removeTaskCleanup (cleanup : Task.Cleanup) :
    (c.removeTaskCleanup cleanup).only r = (c.only r).removeTaskCleanup cleanup :=
  congrArg (fun l => { c.only r with taskCleanups := l }) List.erase_filter.symm

theorem only_removeTaskUpdates {t : Task.Id} (ht : t.requestId = r) (state : Task.State)
    (latest : Option Task.Update) :
    (c.removeTaskUpdates t state latest).only r = (c.only r).removeTaskUpdates t state latest := by
  refine congrArg (fun l => { c.only r with taskHistories := l }) ?_
  refine filter_changeHistory_own ?_ ht c.taskHistories
  exact fun _ => rfl

theorem only_removePending (entry : Request.Pending) :
    (c.removePending entry).only r = (c.only r).removePending entry :=
  congrArg (fun l => { c.only r with pending := l }) (List.filter_comm _ _ c.pending)

theorem only_enqueue {entry : Request.Pending} (hr : entry.requestId = r) :
    (c.enqueue entry).only r = (c.only r).enqueue entry :=
  congrArg (fun l => { c.only r with pending := l })
    (filter_concat_own (·.requestId) c.pending hr)

/-- What passes a test that only entries of the request pass is found in the share. -/
theorem find?_own {α : Type} {owner : α → String} {p : α → Bool}
    (hp : ∀ x, p x = true → owner x = r) (l : List α) :
    (l.filter fun x => owner x = r).find? p = l.find? p := by
  rw [List.find?_filter]
  congr 1
  funext x
  cases hx : p x with
  | false => simp
  | true => simp [hp x hx]

theorem taskCleanup?_only {t : Task.Id} (ht : t.requestId = r) :
    (c.only r).taskCleanup? t = c.taskCleanup? t :=
  find?_own (fun _ hx => (of_decide_eq_true hx) ▸ ht) c.taskCleanups

theorem taskUpdates_only {t : Task.Id} (ht : t.requestId = r) :
    (c.only r).taskUpdates t = c.taskUpdates t := by
  have hfound : (c.only r).taskHistory? t = c.taskHistory? t :=
    find?_own (fun _ hx => (of_decide_eq_true hx) ▸ ht) c.taskHistories
  rw [taskUpdates, taskUpdates, hfound]

theorem pending?_only (deployId : String) :
    (c.only r).pending? r deployId = c.pending? r deployId := by
  refine find?_own (fun p hp => ?_) c.pending
  rw [Bool.and_eq_true, decide_eq_true_eq] at hp
  exact hp.1

theorem caused_only {a : Action} (ha : a.requestId = r) :
    (c.only r).taskCleanups.filter (Poll.caused a) = c.taskCleanups.filter (Poll.caused a) := by
  refine (List.filter_filter).trans (List.filter_congr fun cleanup _ => ?_)
  by_cases hown : cleanup.taskId.requestId = r
  · simp [hown]
  · simp [Poll.caused, hown, ha]

end Own

end Cluster

namespace Poll

variable {s : Conditions} {r : String}

/-- Two worlds have the same share of a request. -/
structure Agree (r : String) (w w' : World) : Prop where
  cluster : w'.cluster.only r = w.cluster.only r
  records : ∀ kind, w'.store.get? (Store.key kind r) = w.store.get? (Store.key kind r)

namespace Agree

variable {w w₁ w₂ w' : World}

theorem refl (w : World) : Agree r w w := ⟨rfl, fun _ => rfl⟩

theorem symm (h : Agree r w w') : Agree r w' w :=
  ⟨h.cluster.symm, fun kind => (h.records kind).symm⟩

theorem trans (h : Agree r w w₁) (h' : Agree r w₁ w₂) : Agree r w w₂ :=
  ⟨h'.cluster.trans h.cluster, fun kind => (h'.records kind).trans (h.records kind)⟩

theorem requests (h : Agree r w w') :
    w'.cluster.requests.get? r = w.cluster.requests.get? r := by
  rw [← Cluster.get?_requests_only w'.cluster, h.cluster, Cluster.get?_requests_only]

theorem inUse (h : Agree r w w') :
    w'.cluster.inUseDeploys.get? r = w.cluster.inUseDeploys.get? r := by
  rw [← Cluster.get?_inUseDeploys_only w'.cluster, h.cluster, Cluster.get?_inUseDeploys_only]

theorem action? (h : Agree r w w') (kind : Kind) :
    w'.store.action? kind r = w.store.action? kind r := by
  rw [Store.action?, Store.action?, h.records kind]

theorem of_quiet (h : Quiet w w') : Agree r w w' :=
  ⟨by rw [h.cluster], fun kind => by rw [h.store]⟩

theorem removed (h : Agree r w w') (kind : Kind) (r' : String) :
    Agree r (w.removed kind r') (w'.removed kind r') := by
  refine ⟨h.cluster, fun kind' => ?_⟩
  show (w'.store.remove kind r').get? _ = (w.store.remove kind r').get? _
  rw [Store.get?_remove, Store.get?_remove, h.records kind']

theorem healed (h : Agree r w w') (kind : Kind) : Agree r (w.healed kind) (w'.healed kind) := by
  refine ⟨h.cluster, fun kind' => ?_⟩
  show (w'.store.healed kind).get? _ = (w.store.healed kind).get? _
  rw [Store.healed, Store.healed, OrderedMap.get?_filter, OrderedMap.get?_filter, h.records kind']

/-- A record that is removed belongs to the request it is for. -/
theorem removed_other (w : World) (kind : Kind) {r' : String} (h : r' ≠ r) :
    Agree r w (w.removed kind r') := by
  refine ⟨rfl, fun kind' => ?_⟩
  show (w.store.remove kind r').get? _ = _
  rw [Store.get?_remove, if_neg]
  exact fun hk => h (Store.key_inj.mp hk).2.symm

end Agree

/-! ## Reverts for others -/

/-- **LOCALITY**: a revert for one request leaves the share of every other. -/
theorem revertFrame_agree {a : Action} {entry : Request.Entry}
    (hid : entry.request.id = a.requestId) (hr : a.requestId ≠ r) :
    RevertFrame s a entry (Agree r) where
  refl := .refl
  trans := .trans
  noted _ _ _ _ := ⟨rfl, fun _ => rfl⟩
  minted _ _ _ := ⟨rfl, fun _ => rfl⟩
  logged _ _ := ⟨rfl, fun _ => rfl⟩
  cleanupRemoved w cleanup h := by
    rw [caused, Bool.and_eq_true, decide_eq_true_eq] at h
    have hother : cleanup.taskId.requestId ≠ r := h.1 ▸ hr
    exact ⟨congrArg (fun l => { w.cluster.only r with taskCleanups := l })
      (Cluster.filter_erase_other (·.taskId.requestId) w.cluster.taskCleanups hother), fun _ => rfl⟩
  updatesRemoved w taskId state latest h := by
    have hother : taskId.requestId ≠ r := h ▸ hr
    refine ⟨congrArg (fun l => { w.cluster.only r with taskHistories := l })
      (Cluster.filter_changeHistory_other ?_ hother w.cluster.taskHistories), fun _ => rfl⟩
    exact fun _ => rfl
  pendingRemoved w entry h := by
    have hother : entry.requestId ≠ r := h ▸ hr
    exact ⟨congrArg (fun l => { w.cluster.only r with pending := l })
      (Cluster.filter_ne_other (·.requestId) w.cluster.pending hother), fun _ => rfl⟩
  enqueued w deployId message :=
    ⟨congrArg (fun l => { w.cluster.only r with pending := l })
      (Cluster.filter_concat_other (·.requestId) w.cluster.pending hr), fun _ => rfl⟩
  cleanupCreated w deployId message id := by
    have hother : (cascadeCleanup s a entry.request.id deployId message id).requestId ≠ r :=
      fun h => hr (hid.symm.trans h)
    exact ⟨w.cluster.only_createCleanup_other hother, fun _ => rfl⟩
  bounced w message := by
    have hother : entry.request.id ≠ r := fun h => hr (hid.symm.trans h)
    exact ⟨congrArg (fun l => { w.cluster.only r with requestHistory := l })
      (Cluster.filter_concat_other (·.requestId) w.cluster.requestHistory hother), fun _ => rfl⟩
  stored w during deployId id fault _ := by
    refine ⟨rfl, fun kind => ?_⟩
    show (w.store.save _).get? _ = _
    rw [Store.get?_save, if_neg]
    exact fun h => hr (hid.symm.trans (Store.key_inj.mp h).2.symm)
  updated w c new event message hnew _ h := by
    obtain ⟨-, -, more, hmore, rfl⟩ := Cluster.updateRequest_eq_ok h
    have hother : new.id ≠ r := fun heq => hr (hid.symm.trans (hnew.symm.trans heq))
    exact ⟨w.cluster.only_changed_other hother rfl hmore, fun _ => rfl⟩
  unpaused w c message h := by
    obtain ⟨old, more, -, hmore, rfl⟩ := Cluster.unpause_eq_ok h
    have hother : entry.request.id ≠ r := fun heq => hr (hid.symm.trans heq)
    exact ⟨w.cluster.only_changed_other hother rfl hmore, fun _ => rfl⟩
  notified w request oldInstances hrequest := by
    have hother : request.id ≠ r := fun heq => hr (hid.symm.trans (hrequest.symm.trans heq))
    exact ⟨congrArg (fun l => { w.cluster.only r with notifications := l })
      (Cluster.filter_concat_other (·.requestId) w.cluster.notifications hother), fun _ => rfl⟩

/-- A visit to an action for one request leaves the share of every other. -/
theorem Happens.agree {kind : Kind} {a : Action} {w w' : World}
    (h : Happens s (.visit kind a) w w') (hkeyed : w.cluster.Keyed) (hr : a.requestId ≠ r) :
    Agree r w w' := by
  cases h with
  | waiting due quiet => exact .of_quiet quiet
  | malformed due quiet => exact (Agree.removed_other w kind hr).trans (.of_quiet quiet)
  | missing due absent quiet => exact (Agree.removed_other w kind hr).trans (.of_quiet quiet)
  | @reverted _ _ _ w₁ _ lifetime entry due lives present before quiet =>
      have hid : entry.request.id = a.requestId := hkeyed _ _ present
      have hrevert := (revertFrame_agree (s := s) hid hr).revert (a.expiryMessage lifetime) w₁
      have hremoved := (Agree.removed_other _ kind hr).trans (Agree.of_quiet quiet)
      exact ((Agree.of_quiet before).trans hrevert).trans hremoved

end Poll

end Lapse
