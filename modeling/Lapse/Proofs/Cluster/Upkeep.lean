import Lapse.Proofs.Cluster
import Mathlib.Data.List.Nodup

/-!
# What every operation keeps

A sound cluster has every request under its own id, and holds one cleanup for each request and
action and one history for each task.  Every operation keeps it sound and only appends to what
happened; all but the insertion of a request also keep the requests that there are, and leave none
of them without the instances that it had.
-/

namespace Lapse.Cluster

/-- Each thing is there once, and each request under its own id. -/
structure Sound (c : Cluster) : Prop where
  keyed : c.Keyed
  cleanups : (c.requestCleanups.map fun old => (old.requestId, old.actionId)).Nodup
  histories : (c.taskHistories.map (·.taskId)).Nodup

/-- A sound cluster stays sound, and what happened stays at the beginning of the history and of the
notifications. -/
structure Advances (c c' : Cluster) : Prop where
  sound : c.Sound → c'.Sound
  requestHistory : c.requestHistory <+: c'.requestHistory
  notifications : c.notifications <+: c'.notifications

/-- The cluster advances, no request comes or goes, and none that has instances loses them all. -/
structure Steady (c c' : Cluster) : Prop extends Advances c c' where
  contains : ∀ r, c'.requests.contains r = c.requests.contains r
  instances : ∀ r e e', c.requests.get? r = some e → c'.requests.get? r = some e' →
    e.request.instances ≠ 0 → e'.request.instances ≠ 0

theorem Advances.refl (c : Cluster) : Advances c c := ⟨id, List.prefix_rfl, List.prefix_rfl⟩

theorem Advances.trans {c₁ c₂ c₃ : Cluster} (h : Advances c₁ c₂) (h' : Advances c₂ c₃) :
    Advances c₁ c₃ :=
  ⟨h'.sound ∘ h.sound, h.requestHistory.trans h'.requestHistory,
    h.notifications.trans h'.notifications⟩

namespace Steady

variable {c c' : Cluster}

theorem trans {c₁ c₂ c₃ : Cluster} (h : Steady c₁ c₂) (h' : Steady c₂ c₃) : Steady c₁ c₃ where
  toAdvances := h.toAdvances.trans h'.toAdvances
  contains r := (h'.contains r).trans (h.contains r)
  instances r e e'' he he'' hn := by
    -- a request that is there at both ends was there in between
    have hin : c₂.requests.contains r = true := by
      rw [h.contains, OrderedMap.contains_iff]
      exact ⟨e, he⟩
    obtain ⟨e', he'⟩ := OrderedMap.contains_iff.mp hin
    exact h'.instances r e' e'' he' he'' (h.instances r e e' he he' hn)

/-- A change that concerns neither the requests nor the cleanups, nor for which tasks there are
histories. -/
theorem of_eq (hrequests : c'.requests = c.requests)
    (hcleanups : c'.requestCleanups = c.requestCleanups)
    (htasks : c'.taskHistories.map (·.taskId) = c.taskHistories.map (·.taskId))
    (hhistory : c.requestHistory <+: c'.requestHistory)
    (hnotifications : c.notifications <+: c'.notifications) : Steady c c' where
  sound h := ⟨fun r e he => h.keyed r e (hrequests ▸ he), hcleanups ▸ h.cleanups,
    htasks ▸ h.histories⟩
  requestHistory := hhistory
  notifications := hnotifications
  contains r := by rw [hrequests]
  instances r e e' he he' hn := by
    rw [hrequests, he] at he'
    exact Option.some.inj he' ▸ hn

theorem refl (c : Cluster) : Steady c c :=
  of_eq rfl rfl rfl List.prefix_rfl List.prefix_rfl

/-- A request that is there is replaced by one that has instances if it had some, and the rest of
the change appends. -/
theorem of_insert {r : String} {old entry : Request.Entry} (hold : c.requests.get? r = some old)
    (hkeyed : c.Keyed → entry.request.id = r)
    (hn : old.request.instances ≠ 0 → entry.request.instances ≠ 0)
    (hrequests : c'.requests = c.requests.insert r entry)
    (hcleanups : c'.requestCleanups = c.requestCleanups)
    (htasks : c'.taskHistories = c.taskHistories)
    (hhistory : c.requestHistory <+: c'.requestHistory)
    (hnotifications : c.notifications = c'.notifications) : Steady c c' where
  sound h := ⟨h.keyed.insert (hkeyed h.keyed) hrequests, hcleanups ▸ h.cleanups,
    htasks ▸ h.histories⟩
  requestHistory := hhistory
  notifications := hnotifications ▸ List.prefix_rfl
  contains r' := by
    rw [hrequests]
    exact OrderedMap.contains_insert (OrderedMap.contains_iff.mpr ⟨old, hold⟩) entry r'
  instances r' e e' he he' hne := by
    rw [hrequests, OrderedMap.get?_insert] at he'
    by_cases heq : r' = r
    · rw [if_pos heq] at he'
      rw [heq, hold] at he
      rw [← Option.some.inj he']
      exact hn (Option.some.inj he ▸ hne)
    · rw [if_neg heq, he] at he'
      exact Option.some.inj he' ▸ hne

end Steady

/-! ## The operations -/

/-- A history that is created on demand is the only one of its task. -/
theorem nodup_changeHistory {t : Task.Id} {f : Task.History → Task.History}
    (hf : ∀ h, (f h).taskId = h.taskId) {l : List Task.History}
    (hl : (l.map (·.taskId)).Nodup) : ((changeHistory t f l).map (·.taskId)).Nodup := by
  -- the tasks are those that were there, and this one
  have htasks : ∀ l : List Task.History, ∀ t' ∈ (changeHistory t f l).map (·.taskId),
      t' = t ∨ t' ∈ l.map (·.taskId) := by
    intro l
    induction l with
    | nil =>
        intro t' ht'
        rw [changeHistory, List.map_singleton, hf] at ht'
        exact .inl (List.mem_singleton.mp ht')
    | cons h rest ih =>
        intro t' ht'
        rw [changeHistory] at ht'
        split at ht'
        · rw [List.map_cons, hf] at ht'
          exact .inr ht'
        · rw [List.map_cons, List.mem_cons] at ht'
          rw [List.map_cons, List.mem_cons]
          exact ht'.elim (fun heq => .inr (.inl heq)) fun hrest =>
            (ih t' hrest).imp_right .inr
  induction l with
  | nil => exact List.nodup_singleton _
  | cons h rest ih =>
      obtain ⟨hfresh, hrest⟩ := List.nodup_cons.mp hl
      rw [changeHistory]
      split
      · rw [List.map_cons, hf]
        exact hl
      · next hne =>
        rw [List.map_cons, List.nodup_cons]
        exact ⟨fun hmem => (htasks rest _ hmem).elim hne hfresh, ih hrest⟩

/-- Changing the history of a task, which may have to be created. -/
theorem changeHistory_steady (c : Cluster) (t : Task.Id) {f : Task.History → Task.History}
    (hf : ∀ h, (f h).taskId = h.taskId) :
    Steady c { c with taskHistories := changeHistory t f c.taskHistories } where
  sound h := ⟨h.keyed, h.cleanups, nodup_changeHistory hf h.histories⟩
  requestHistory := List.prefix_rfl
  notifications := List.prefix_rfl
  contains _ := rfl
  instances _ _ _ he he' hn := Option.some.inj (he.symm.trans he') ▸ hn

theorem recordTaskUpdate_steady (c : Cluster) (update : Task.Update) :
    Steady c (c.recordTaskUpdate update) :=
  changeHistory_steady c update.taskId fun _ => rfl

theorem removeTaskUpdates_steady (c : Cluster) (t : Task.Id) (state : Task.State)
    (latest : Option Task.Update) : Steady c (c.removeTaskUpdates t state latest) :=
  changeHistory_steady c t fun _ => rfl

theorem record_steady (c : Cluster) (wall : Int64) (request : Request) (event : Request.Event)
    (user : String) (message : Option String) :
    Steady c (c.record wall request event user message) :=
  .of_eq rfl rfl rfl (List.prefix_append _ _) List.prefix_rfl

theorem notifyScaled_steady (c : Cluster) (wall : Int64) (request : Request)
    (oldInstances : UInt32) (user : String) :
    Steady c (c.notifyScaled wall request oldInstances user) :=
  .of_eq rfl rfl rfl List.prefix_rfl (List.prefix_append _ _)

theorem createCleanup_steady (c : Cluster) (cleanup : Request.Cleanup) :
    Steady c (c.createCleanup cleanup).2 := by
  rw [createCleanup]
  split
  · exact .refl c
  · next hnew =>
    refine ⟨⟨fun h => ⟨h.keyed, ?_, h.histories⟩, List.prefix_rfl, List.prefix_rfl⟩,
      fun _ => rfl, fun _ _ _ he he' hn => Option.some.inj (he.symm.trans he') ▸ hn⟩
    rw [List.map_append, List.map_singleton, List.nodup_append_comm, List.singleton_append,
      List.nodup_cons]
    refine ⟨fun hmem => hnew ?_, h.cleanups⟩
    obtain ⟨old, hold, heq⟩ := List.mem_map.mp hmem
    obtain ⟨hr, ha⟩ := Prod.mk.inj heq
    exact List.any_eq_true.mpr ⟨old, hold, by simp [hr, ha]⟩

theorem updateRequest_steady {c c' : Cluster} {wall : Int64} {new : Request}
    {state : Request.State} {event : Option Request.Event} {user : String} {flag : Option Bool}
    {message : Option String}
    (h : c.updateRequest wall new state event user flag message = .ok c') : Steady c c' := by
  obtain ⟨hn, hin, more, -, rfl⟩ := updateRequest_eq_ok h
  obtain ⟨old, hold⟩ := OrderedMap.contains_iff.mp hin
  exact .of_insert hold (fun _ => rfl) (fun _ => hn) rfl rfl rfl (List.prefix_append _ _) rfl

theorem unpause_steady {c c' : Cluster} {wall : Int64} {request : Request} {user : String}
    {message : Option String} {flag : Option Bool}
    (h : c.unpause wall request user message flag = .ok c') : Steady c c' := by
  obtain ⟨entry, more, hget, -, rfl⟩ := unpause_eq_ok h
  -- only the state of the stored entry changes
  let active : Request.Entry := { entry with state := .active }
  have hid : c.Keyed → active.request.id = request.id := fun hkeyed => hkeyed _ entry hget
  exact .of_insert hget hid id rfl rfl rfl (List.prefix_append _ _) rfl

/-- Inserting a request may add it, and may take all instances of one that is there. -/
theorem insertRequest_advances (c : Cluster) (request : Request) (state : Request.State) :
    Advances c (c.insertRequest request state) where
  sound h := ⟨h.keyed.insert (show Request.id request = request.id from rfl) rfl, h.cleanups,
    h.histories⟩
  requestHistory := List.prefix_rfl
  notifications := List.prefix_rfl

end Lapse.Cluster
