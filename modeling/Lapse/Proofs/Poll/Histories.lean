import Lapse.Proofs.Cluster
import Lapse.Proofs.Poll.CallOff
import Lapse.Proofs.Poll.Schedule
import Mathlib.Data.List.Perm.Subperm

/-!
# The histories after a poll

A poll rolls back the history of a task exactly once if the last cleanup of the task goes during
the poll, and leaves it alone otherwise: what is queued for a task only ever shrinks, so a task
runs out of cleanups at most once.  So the histories that a poll leaves are the old ones with those
of the cleaned-out tasks rolled back, whatever the store holds, and they stay sound exactly if none
of these ended in two cleaning updates.
-/

namespace Lapse

namespace Cluster

/-- A cleanup of the task is queued. -/
def Queued (c : Cluster) (t : Task.Id) : Prop := ∃ cleanup ∈ c.taskCleanups, cleanup.taskId = t

theorem Queued.of_withdrawn {c : Cluster} {cleanup : Task.Cleanup} {t : Task.Id}
    (h : (c.withdrawn cleanup).Queued t) : c.Queued t := by
  obtain ⟨other, hother, ht⟩ := h
  rw [withdrawn_taskCleanups] at hother
  exact ⟨other, List.mem_of_mem_erase hother, ht⟩

/-- Only the task of the cleanup can run out of cleanups. -/
theorem Queued.withdrawn {c : Cluster} {cleanup : Task.Cleanup} {t : Task.Id} (h : c.Queued t)
    (ht : t ≠ cleanup.taskId) : (c.withdrawn cleanup).Queued t := by
  obtain ⟨other, hother, rfl⟩ := h
  have hne : other ≠ cleanup := fun heq => ht (congrArg Task.Cleanup.taskId heq)
  refine ⟨other, ?_, rfl⟩
  rw [withdrawn_taskCleanups]
  exact (List.mem_erase_of_ne hne).mpr hother

/-- Whether it does is what the look-up after the removal tells. -/
theorem queued_withdrawn_iff (c : Cluster) (cleanup : Task.Cleanup) :
    (c.withdrawn cleanup).Queued cleanup.taskId ↔
      ((c.removeTaskCleanup cleanup).taskCleanup? cleanup.taskId).isSome = true := by
  rw [Queued, withdrawn_taskCleanups, taskCleanup?, List.find?_isSome]
  simp only [decide_eq_true_eq]
  exact Iff.rfl

/-- From one cluster to the next the tasks that ran out of cleanups are rolled back. -/
structure Rolled (c c' : Cluster) : Prop where
  fewer : ∀ t, c'.Queued t → c.Queued t
  back : ∃ ts : List Task.Id, ts.Nodup ∧ (∀ t, t ∈ ts ↔ c.Queued t ∧ ¬ c'.Queued t) ∧
    c'.taskHistories = ts.foldl Task.History.rollBack c.taskHistories

namespace Rolled

theorem of_eq {c c' : Cluster} (hq : c'.taskCleanups = c.taskCleanups)
    (hh : c'.taskHistories = c.taskHistories) : Rolled c c' := by
  have hqueued : ∀ t, c'.Queued t ↔ c.Queued t := fun t => by rw [Queued, Queued, hq]
  refine ⟨fun t => (hqueued t).mp, [], List.nodup_nil, fun t => ?_, hh⟩
  rw [hqueued]
  exact ⟨fun h => (nomatch h), fun h => absurd h.1 h.2⟩

theorem trans {c c' c'' : Cluster} (h : Rolled c c') (h' : Rolled c' c'') : Rolled c c'' := by
  obtain ⟨ts, hts, hmem, hback⟩ := h.back
  obtain ⟨ts', hts', hmem', hback'⟩ := h'.back
  refine ⟨fun t ht => h.fewer t (h'.fewer t ht), ts ++ ts', ?_, fun t => ?_, ?_⟩
  · -- a task that ran out of cleanups has none to run out of later
    refine List.nodup_append.mpr ⟨hts, hts', ?_⟩
    rintro t ht _ ht' rfl
    exact ((hmem t).mp ht).2 ((hmem' t).mp ht').1
  · rw [List.mem_append, hmem, hmem']
    constructor
    · rintro (⟨hq, hq'⟩ | ⟨hq', hq''⟩)
      · exact ⟨hq, fun hq'' => hq' (h'.fewer t hq'')⟩
      · exact ⟨h.fewer t hq', hq''⟩
    · rintro ⟨hq, hq''⟩
      by_cases hq' : c'.Queued t
      · exact .inr ⟨hq', hq''⟩
      · exact .inl ⟨hq, hq'⟩
  · rw [List.foldl_append, ← hback, hback']

theorem withdrawn {c : Cluster} {cleanup : Task.Cleanup} (hmem : cleanup ∈ c.taskCleanups) :
    Rolled c (c.withdrawn cleanup) := by
  have hfewer : ∀ t, (c.withdrawn cleanup).Queued t → c.Queued t := fun _ h => h.of_withdrawn
  have hleft := queued_withdrawn_iff c cleanup
  refine ⟨hfewer, ?_⟩
  by_cases hfound : ((c.removeTaskCleanup cleanup).taskCleanup? cleanup.taskId).isSome = true
  · refine ⟨[], List.nodup_nil, fun t => ⟨fun h => (nomatch h), ?_⟩, ?_⟩
    · rintro ⟨hq, hq'⟩
      by_cases ht : t = cleanup.taskId
      · exact absurd (hleft.mpr hfound) (ht ▸ hq')
      · exact absurd (hq.withdrawn ht) hq'
    · rw [Cluster.withdrawn, if_pos hfound]
      rfl
  · refine ⟨[cleanup.taskId], List.pairwise_singleton _ _, fun t => ?_, ?_⟩
    · rw [List.mem_singleton]
      constructor
      · rintro rfl
        exact ⟨⟨cleanup, hmem, rfl⟩, fun hq => hfound (hleft.mp hq)⟩
      · rintro ⟨hq, hq'⟩
        by_contra ht
        exact hq' (hq.withdrawn ht)
    · rw [Cluster.withdrawn, if_neg hfound]
      rfl

theorem foldl_withdrawn {c : Cluster} {cleanups : List Task.Cleanup}
    (h : cleanups.Subperm c.taskCleanups) : Rolled c (cleanups.foldl Cluster.withdrawn c) := by
  induction cleanups generalizing c with
  | nil => exact of_eq rfl rfl
  | cons cleanup rest ih =>
      have hmem : cleanup ∈ c.taskCleanups := h.subset List.mem_cons_self
      refine (withdrawn hmem).trans (ih ?_)
      -- the cleanups that are left to withdraw are all still queued
      have hrest := h.erase cleanup
      rw [List.erase_cons_head] at hrest
      rw [withdrawn_taskCleanups]
      exact hrest

theorem calledOff (s : Poll.Conditions) (a : Action) (deployId message : String) (c : Cluster) :
    Rolled c (c.calledOff s a deployId message) := by
  have hfold : Rolled c ((c.taskCleanups.filter (Poll.caused a)).foldl Cluster.withdrawn c) :=
    foldl_withdrawn List.filter_sublist.subperm
  refine hfold.trans (of_eq ?_ ?_)
  · exact pendingWithdrawn_taskCleanups _ a deployId
  · exact calledOff_taskHistories s a deployId message c

end Rolled

end Cluster

namespace Poll

variable {s : Conditions}

/-! ## One event -/

/-- Reverts of other kinds touch neither the queue of cleanups nor the histories. -/
theorem cascadeFrame_tasks (a : Action) (old : Request) : CascadeFrame s a old fun w w' =>
    (w'.cluster.taskCleanups, w'.cluster.taskHistories) =
      (w.cluster.taskCleanups, w.cluster.taskHistories) where
  toFrame := Frame.ofCluster fun c => (c.taskCleanups, c.taskHistories)
  cleanupCreated w deployId message id := by
    obtain ⟨cleanups, hc⟩ :=
      w.cluster.createCleanup_eq (cascadeCleanup s a old.id deployId message id)
    dsimp only
    rw [hc]
  bounced _ _ := rfl
  stored _ _ _ _ _ _ := rfl

theorem restoreFrame_tasks (a : Action) (entry : Request.Entry) : RestoreFrame s a entry fun w w' =>
    (w'.cluster.taskCleanups, w'.cluster.taskHistories) =
      (w.cluster.taskCleanups, w.cluster.taskHistories) where
  toFrame := Frame.ofCluster fun c => (c.taskCleanups, c.taskHistories)
  updated w c new event message _ _ h := by
    obtain ⟨-, -, more, -, rfl⟩ := Cluster.updateRequest_eq_ok h
    rfl
  unpaused w c message h := by
    obtain ⟨entry, more, -, -, rfl⟩ := Cluster.unpause_eq_ok h
    rfl
  notified _ _ _ _ := rfl

/-- No revert adds or removes a request. -/
theorem revertFrame_contains (a : Action) (entry : Request.Entry) :
    RevertFrame s a entry fun w w' =>
      ∀ r, w'.cluster.requests.contains r = w.cluster.requests.contains r where
  refl _ _ := rfl
  trans h h' r := (h' r).trans (h r)
  noted _ _ _ _ _ := rfl
  minted _ _ _ _ := rfl
  logged _ _ _ := rfl
  cleanupRemoved _ _ _ _ := rfl
  updatesRemoved _ _ _ _ _ _ := rfl
  pendingRemoved _ _ _ _ := rfl
  enqueued _ _ _ _ := rfl
  cleanupCreated w deployId message id r := by
    obtain ⟨cleanups, hc⟩ :=
      w.cluster.createCleanup_eq (cascadeCleanup s a entry.request.id deployId message id)
    show (w.cluster.createCleanup _).2.requests.contains r = _
    rw [hc]
  bounced _ _ _ := rfl
  stored _ _ _ _ _ _ _ := rfl
  updated w c new event message _ _ h r := by
    obtain ⟨-, hin, more, -, rfl⟩ := Cluster.updateRequest_eq_ok h
    exact OrderedMap.contains_insert hin _ r
  unpaused w c message h r := by
    obtain ⟨entry, more, hget, -, rfl⟩ := Cluster.unpause_eq_ok h
    exact OrderedMap.contains_insert (OrderedMap.contains_iff.mpr ⟨entry, hget⟩) _ r
  notified _ _ _ _ _ := rfl

/-- Whether an event withdraws a cleanup, when the cluster is `c`. -/
def Event.withdraws (s : Conditions) (c : Cluster) (cleanup : Task.Cleanup) : Event → Bool
  | .list _ => false
  | .visit _ a =>
    a.kind = .bounce && s.isDue a && c.requests.contains a.requestId && caused a cleanup

/-- What an event does to the tasks: what it withdraws goes from the queue, and the tasks that
thereby ran out of cleanups are rolled back. -/
structure Event.Cleans (s : Conditions) (ev : Event) (c c' : Cluster) : Prop where
  contains : ∀ r, c'.requests.contains r = c.requests.contains r
  rolled : Cluster.Rolled c c'
  queue : c'.taskCleanups = c.taskCleanups.filter fun cleanup => !ev.withdraws s c cleanup

theorem Event.Cleans.of_eq {ev : Event} {c c' : Cluster}
    (hcontains : ∀ r, c'.requests.contains r = c.requests.contains r)
    (htasks : (c'.taskCleanups, c'.taskHistories) = (c.taskCleanups, c.taskHistories))
    (hnone : ∀ cleanup, ev.withdraws s c cleanup = false) : ev.Cleans s c c' := by
  obtain ⟨hq, hh⟩ := Prod.mk.inj htasks
  refine ⟨hcontains, Cluster.Rolled.of_eq hq hh, ?_⟩
  rw [hq, List.filter_eq_self.mpr]
  intro cleanup _
  rw [hnone]
  rfl

/-- A revert withdraws what its bounce caused. -/
theorem revert_cleans (hs : s.Reliable) (kind : Kind) {a : Action} {entry : Request.Entry}
    {w : World} (hdue : s.isDue a = true)
    (hpresent : w.cluster.requests.get? a.requestId = some entry) (message : String) :
    (Event.visit kind a).Cleans s w.cluster (after (revert s a entry message).run w).cluster := by
  have hcontains := (revertFrame_contains (s := s) a entry).revert message w
  -- a revert of another kind withdraws nothing
  have hother : a.kind ≠ .bounce → ∀ cleanup,
      (Event.visit kind a).withdraws s w.cluster cleanup = false := by
    intro hkind cleanup
    rw [Event.withdraws, decide_eq_false hkind]
    rfl
  rw [revert] at hcontains ⊢
  cases hundo : a.undo with
  | bounce deployId =>
      have hturns := revertBounce_turns (hs.spares a.requestId) deployId message w.cluster
      have hcluster := (hturns w rfl).2
      rw [hundo] at hcontains
      refine ⟨hcontains, ?_, ?_⟩
      · rw [hcluster]
        exact Cluster.Rolled.calledOff s a deployId message w.cluster
      · rw [hcluster, Cluster.calledOff_taskCleanups]
        refine List.filter_congr fun cleanup _ => ?_
        have hkind : a.kind = .bounce := Action.kind_eq_bounce_iff.mpr ⟨deployId, hundo⟩
        have hin := OrderedMap.contains_iff.mpr ⟨entry, hpresent⟩
        rw [Event.withdraws, decide_eq_true hkind, hdue, hin]
        rfl
  | pause =>
      rw [hundo] at hcontains
      have htasks := (restoreFrame_tasks (s := s) a entry).revertPause message w
      exact .of_eq hcontains htasks (hother (by simp [Action.kind, Action.Undo.kind, hundo]))
  | scale n =>
      rw [hundo] at hcontains
      have htasks := (restoreFrame_tasks (s := s) a entry).revertScale (cascadeFrame_tasks a _) n message w
      exact .of_eq hcontains htasks (hother (by simp [Action.kind, Action.Undo.kind, hundo]))
  | skipHealthchecks flag =>
      rw [hundo] at hcontains
      have htasks := (restoreFrame_tasks (s := s) a entry).revertSkipHealthchecks flag message w
      exact .of_eq hcontains htasks (hother (by simp [Action.kind, Action.Undo.kind, hundo]))

theorem Happens.cleans (hs : s.Reliable) {ev : Event} {w w' : World} (h : Happens s ev w w') :
    ev.Cleans s w.cluster w'.cluster := by
  cases h with
  | listed quiet =>
      rw [quiet.cluster]
      exact .of_eq (fun _ => rfl) rfl fun _ => rfl
  | waiting due quiet =>
      rw [quiet.cluster]
      exact .of_eq (fun _ => rfl) rfl fun _ => by simp [Event.withdraws, Conditions.isDue, due]
  | malformed due quiet =>
      rw [quiet.cluster]
      exact .of_eq (fun _ => rfl) rfl fun _ => by simp [Event.withdraws, Conditions.isDue, due]
  | missing due absent quiet =>
      rw [quiet.cluster]
      exact .of_eq (fun _ => rfl) rfl fun _ => by
        simp [Event.withdraws, OrderedMap.contains, absent]
  | @reverted kind a _ w₁ _ lifetime entry due lives present before quiet =>
      have hdue : s.isDue a = true := by rw [Conditions.isDue, due]
      rw [quiet.cluster, ← before.cluster]
      exact revert_cleans hs kind hdue (before.cluster ▸ present) (a.expiryMessage lifetime)

/-! ## A poll -/

/-- What the events done so far have made of the tasks. -/
structure CleanedSo (s : Conditions) (c : Cluster) (done : List Event) (c' : Cluster) : Prop where
  contains : ∀ r, c'.requests.contains r = c.requests.contains r
  rolled : Cluster.Rolled c c'
  queue : c'.taskCleanups =
    c.taskCleanups.filter fun cleanup => !done.any fun ev => ev.withdraws s c cleanup

/-- Which cleanups an event withdraws depends on which requests are there only. -/
theorem withdraws_congr {c c' : Cluster}
    (h : ∀ r, c'.requests.contains r = c.requests.contains r) (ev : Event)
    (cleanup : Task.Cleanup) : ev.withdraws s c' cleanup = ev.withdraws s c cleanup := by
  cases ev with
  | list kind => rfl
  | visit kind a => rw [Event.withdraws, Event.withdraws, h]

theorem cleanedSo_poll (hs : s.Reliable) (w : World) :
    CleanedSo s w.cluster (schedule w.store) (after (poll s) w).cluster := by
  refine (poll_run hs.sparesPoll w).1.induct (fun done w' => CleanedSo s w.cluster done w'.cluster)
    ?_ ?_
  · refine ⟨fun _ => rfl, Cluster.Rolled.of_eq rfl rfl, ?_⟩
    exact (List.filter_eq_self.mpr fun _ _ => rfl).symm
  · intro done ev rest w₁ w₂ _ hdone hev
    have hcleans := hev.cleans hs
    refine ⟨fun r => (hcleans.contains r).trans (hdone.contains r),
      hdone.rolled.trans hcleans.rolled, ?_⟩
    rw [hcleans.queue, hdone.queue, List.filter_filter]
    refine List.filter_congr fun cleanup _ => ?_
    rw [withdraws_congr hdone.contains, List.any_append, List.any_cons, List.any_nil, Bool.or_false,
      Bool.not_or, Bool.and_comm]

/-- The bounces that a poll calls off: due ones that the store holds, whose request is there. -/
def CallsOff (s : Conditions) (w : World) (a : Action) : Prop :=
  (∃ kind, a ∈ w.store.actions kind) ∧ a.kind = .bounce ∧ s.isDue a = true ∧
    w.cluster.requests.contains a.requestId = true

/-- The poll calls off bounces that caused every cleanup of the task, and there is one. -/
def CleanedOut (s : Conditions) (w : World) (t : Task.Id) : Prop :=
  w.cluster.Queued t ∧ ∀ cleanup ∈ w.cluster.taskCleanups, cleanup.taskId = t →
    ∃ a, CallsOff s w a ∧ caused a cleanup = true

theorem any_withdraws_iff {w : World} {cleanup : Task.Cleanup} :
    ((schedule w.store).any fun ev => ev.withdraws s w.cluster cleanup) = true ↔
      ∃ a, CallsOff s w a ∧ caused a cleanup = true := by
  rw [List.any_eq_true]
  constructor
  · rintro ⟨ev, hev, hwithdraws⟩
    cases ev with
    | list kind => exact nomatch hwithdraws
    | visit kind a =>
        simp only [Event.withdraws, Bool.and_eq_true, decide_eq_true_eq] at hwithdraws
        obtain ⟨⟨⟨hkind, hdue⟩, hin⟩, hcaused⟩ := hwithdraws
        exact ⟨a, ⟨⟨kind, mem_actions_of_mem_schedule hev⟩, hkind, hdue, hin⟩, hcaused⟩
  · rintro ⟨a, ⟨⟨kind, hmem⟩, hkind, hdue, hin⟩, hcaused⟩
    refine ⟨.visit kind a, mem_schedule_of_mem_actions hmem, ?_⟩
    simp only [Event.withdraws, Bool.and_eq_true, decide_eq_true_eq]
    exact ⟨⟨⟨hkind, hdue⟩, hin⟩, hcaused⟩

/-- A task runs out of cleanups in a poll exactly if it is cleaned out. -/
theorem cleanedOut_iff (hs : s.Reliable) (w : World) (t : Task.Id) :
    w.cluster.Queued t ∧ ¬ (after (poll s) w).cluster.Queued t ↔ CleanedOut s w t := by
  have hqueue := (cleanedSo_poll hs w).queue
  rw [CleanedOut]
  refine and_congr_right fun _ => ?_
  constructor
  · intro hout cleanup hmem ht
    rw [← any_withdraws_iff]
    by_contra hstays
    refine hout ⟨cleanup, ?_, ht⟩
    rw [hqueue]
    exact List.mem_filter.mpr ⟨hmem, by rw [Bool.eq_false_iff.mpr hstays]; rfl⟩
  · rintro hall ⟨cleanup, hmem, ht⟩
    rw [hqueue] at hmem
    obtain ⟨hmem, hstays⟩ := List.mem_filter.mp hmem
    rw [any_withdraws_iff.mpr (hall cleanup hmem ht)] at hstays
    exact nomatch hstays

/-- **HISTORIES**: if the pointers of all histories are sound before a poll whose calls do not
fail, they are sound after it exactly if no task that is cleaned out ends in two cleaning
updates. -/
theorem poll_histories_sound_iff (hs : s.Reliable) (w : World)
    (hsound : ∀ h ∈ w.cluster.taskHistories, h.Sound) :
    (∀ h ∈ (after (poll s) w).cluster.taskHistories, h.Sound) ↔
      ∀ t, CleanedOut s w t → ∀ h, w.cluster.taskHistory? t = some h → ¬ h.EndsCleaningTwice := by
  obtain ⟨ts, hts, hmem, hback⟩ := (cleanedSo_poll hs w).rolled.back
  rw [hback, Task.History.sound_foldl_rollBack_iff hsound hts]
  refine forall_congr' fun t => ?_
  rw [hmem, cleanedOut_iff hs]
  exact Iff.rfl

/-! A task that was seen cleaning twice, and whose one cleanup an expired bounce caused. -/

/-- A task of the deploy that the bounce is of. -/
def webTask : Task.Id := ⟨"web", "d1", 100, 1, "host-a"⟩

/-- The task was running, then cleaning, then cleaning again. -/
def cleanedTwice : World where
  store := Store.save .empty
    { requestId := "web", actionId := "b-1", user := "alice", startMillis := 0
      terms := { durationMillis := some 5000 }, undo := .bounce "d1" }
  cluster.requests := OrderedMap.empty.insert "web" ⟨{ id := "web", instances := 3 }, .active⟩
  cluster.taskCleanups := [⟨webTask, "alice", 20, none, some "b-1"⟩]
  cluster.taskHistories :=
    [{ taskId := webTask
       updates := [⟨webTask, .running, 10, none⟩, ⟨webTask, .cleaning, 20, none⟩,
         ⟨webTask, .cleaning, 30, none⟩]
       latest := some ⟨webTask, .cleaning, 30, none⟩ }]

theorem poll_histories_sound_iff_cleanedTwice :
    (∀ h ∈ (after (poll (.calm 10000)) cleanedTwice).cluster.taskHistories, h.Sound) ↔
      ∀ t, CleanedOut (.calm 10000) cleanedTwice t → ∀ h,
        cleanedTwice.cluster.taskHistory? t = some h → ¬ h.EndsCleaningTwice :=
  poll_histories_sound_iff (Conditions.reliable_calm 10000) cleanedTwice (by decide +kernel)

theorem poll_leaves_unsound_cleanedTwice :
    (∀ h ∈ cleanedTwice.cluster.taskHistories, h.Sound) ∧
      (after (poll (.calm 10000)) cleanedTwice).cluster.taskHistories =
        [⟨webTask, [⟨webTask, .running, 10, none⟩], some ⟨webTask, .cleaning, 20, none⟩⟩] ∧
      ¬ ∀ h ∈ (after (poll (.calm 10000)) cleanedTwice).cluster.taskHistories, h.Sound := by
  decide +kernel

end Poll

end Lapse
