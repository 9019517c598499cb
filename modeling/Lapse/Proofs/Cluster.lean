import Lapse.Cluster
import Lapse.Proofs.OrderedMap

/-!
# Changes of the requests

Updating and unpausing are the two operations that change a request.  When they are not refused
they replace one entry that is there, append to the history and to the pending queue, and touch
nothing else; so they keep every request under its own id.
-/

namespace Lapse.Cluster

/-- Every request is stored under its own id. -/
def Keyed (c : Cluster) : Prop := ∀ r e, c.requests.get? r = some e → e.request.id = r

/-- Queueing work for the deploy in use appends to the pending queue at most, for the request. -/
theorem enqueueForDeploy_eq (c : Cluster) (wall : Int64) (r : String)
    (reason : Request.PendingReason) (user : String) (message : Option String)
    (flag : Option Bool) :
    ∃ more, (∀ p ∈ more, p.requestId = r) ∧
      c.enqueueForDeploy wall r reason user message flag =
        { c with pending := c.pending ++ more } := by
  rw [enqueueForDeploy]
  split
  · exact ⟨[], nofun, by rw [List.append_nil]⟩
  · refine ⟨_, fun p hp => ?_, rfl⟩
    rw [List.mem_singleton.mp hp]

section Update

variable {c c' : Cluster} {wall : Int64} {new : Request} {state : Request.State}
  {event : Option Request.Event} {user : String} {flag : Option Bool} {message : Option String}

/-- A request that is there is replaced, unless it is to have no instances. -/
theorem updateRequest_of_contains (hn : new.instances ≠ 0)
    (hin : c.requests.contains new.id = true) :
    ∃ more, (∀ p ∈ more, p.requestId = new.id) ∧
      c.updateRequest wall new state event user flag message = .ok
        { c with
          requests := c.requests.insert new.id ⟨new, state⟩
          requestHistory := c.requestHistory ++
            [⟨new.id, event.getD .updated, user, wall, new.instances, message⟩]
          pending := c.pending ++ more } := by
  rw [updateRequest, if_neg hn, if_pos hin]
  dsimp only
  -- only an active request gets work queued
  by_cases hstate : state = .active
  · rw [if_pos hstate]
    obtain ⟨more, hids, hmore⟩ := enqueueForDeploy_eq
      (record { c with requests := c.requests.insert new.id ⟨new, state⟩ } wall new
        (event.getD .updated) user message) wall new.id .updated user message flag
    exact ⟨more, hids, congrArg Except.ok hmore⟩
  · rw [if_neg hstate]
    exact ⟨[], nofun, congrArg Except.ok (by rw [List.append_nil]; rfl)⟩

theorem updateRequest_eq_ok
    (h : c.updateRequest wall new state event user flag message = .ok c') :
    new.instances ≠ 0 ∧ c.requests.contains new.id = true ∧
    ∃ more, (∀ p ∈ more, p.requestId = new.id) ∧ c' =
      { c with
        requests := c.requests.insert new.id ⟨new, state⟩
        requestHistory := c.requestHistory ++
          [⟨new.id, event.getD .updated, user, wall, new.instances, message⟩]
        pending := c.pending ++ more } := by
  have hn : new.instances ≠ 0 := by
    intro hn
    rw [updateRequest, if_pos hn] at h
    exact nomatch h
  have hin : c.requests.contains new.id = true := by
    by_contra hin
    rw [updateRequest, if_neg hn, if_neg hin] at h
    exact nomatch h
  obtain ⟨more, hids, hok⟩ := updateRequest_of_contains hn hin
  exact ⟨hn, hin, more, hids, Except.ok.inj (h.symm.trans hok)⟩

end Update

section Unpause

variable {c c' : Cluster} {wall : Int64} {request : Request} {user : String}
  {message : Option String} {flag : Option Bool}

/-- A request that is there is made active. -/
theorem unpause_of_get? {entry : Request.Entry} (h : c.requests.get? request.id = some entry) :
    ∃ more, (∀ p ∈ more, p.requestId = request.id) ∧
      c.unpause wall request user message flag = .ok
        { c with
          requests := c.requests.insert request.id { entry with state := .active }
          requestHistory := c.requestHistory ++
            [⟨request.id, .unpaused, user, wall, request.instances, message⟩]
          pending := c.pending ++ more } := by
  rw [unpause, h]
  obtain ⟨more, hids, hmore⟩ := enqueueForDeploy_eq
    (record { c with requests := c.requests.insert request.id { entry with state := .active } }
      wall request .unpaused user message) wall request.id .unpaused user message flag
  exact ⟨more, hids, congrArg Except.ok hmore⟩

theorem unpause_eq_ok (h : c.unpause wall request user message flag = .ok c') :
    ∃ entry more, c.requests.get? request.id = some entry ∧
      (∀ p ∈ more, p.requestId = request.id) ∧ c' =
      { c with
        requests := c.requests.insert request.id { entry with state := .active }
        requestHistory := c.requestHistory ++
          [⟨request.id, .unpaused, user, wall, request.instances, message⟩]
        pending := c.pending ++ more } := by
  cases hget : c.requests.get? request.id with
  | none =>
      rw [unpause, hget] at h
      exact nomatch h
  | some entry =>
      obtain ⟨more, hids, hok⟩ := @unpause_of_get? c wall request user message flag entry hget
      exact ⟨entry, more, rfl, hids, Except.ok.inj (h.symm.trans hok)⟩

end Unpause

/-- Storing an entry under its own id keeps every request under its own id. -/
theorem Keyed.insert {c c' : Cluster} (hc : c.Keyed) {r : String} {entry : Request.Entry}
    (hr : entry.request.id = r) (h : c'.requests = c.requests.insert r entry) : c'.Keyed := by
  intro r' e he
  rw [h, OrderedMap.get?_insert] at he
  by_cases heq : r' = r
  · rw [if_pos heq] at he
    rw [← Option.some.inj he, hr, heq]
  · rw [if_neg heq] at he
    exact hc r' e he

/-- Ordering a cleanup changes the queue of cleanups of requests at most. -/
theorem createCleanup_eq (c : Cluster) (cleanup : Request.Cleanup) :
    ∃ cleanups, (c.createCleanup cleanup).2 = { c with requestCleanups := cleanups } := by
  rw [createCleanup]
  split
  · exact ⟨c.requestCleanups, rfl⟩
  · exact ⟨_, rfl⟩

theorem keyed_empty : Keyed {} := fun _ _ he => nomatch he

end Lapse.Cluster
