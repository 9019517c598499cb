import Lapse.Proofs.Poll.Histories

/-!
# Cancellations stay queued

Calling off a bounce queues the entry that cancels it.  What comes later in the poll takes entries of
other requests from the queue only, because a kind has one action for a request at most and no bounce is
called off after other actions are undone.  So the cancellations are all there when the poll ends.
-/

namespace Lapse.Poll

variable {s : Conditions} {p : Request.Pending}

/-! ## What stays queued -/

/-- The entry is not taken from the queue. -/
def Stays (p : Request.Pending) (w w' : World) : Prop :=
  p ∈ w.cluster.pending → p ∈ w'.cluster.pending

theorem frame_stays (p : Request.Pending) : Frame (Stays p) where
  refl _ h := h
  trans h h' hp := h' (h hp)
  noted _ _ _ _ h := h
  minted _ _ _ h := h
  logged _ _ h := h

/-- Calling off a bounce takes no entries of other requests. -/
theorem callOffFrame_stays {a : Action} (hp : p.requestId ≠ a.requestId) :
    CallOffFrame s a (Stays p) where
  toFrame := frame_stays p
  cleanupRemoved _ _ _ h := h
  updatesRemoved _ _ _ _ _ h := h
  pendingRemoved _ _ hentry h :=
    List.mem_filter.mpr ⟨h, decide_eq_true fun heq => hp (heq ▸ hentry)⟩
  enqueued _ _ _ h := List.mem_append_left _ h

theorem cascadeFrame_stays (a : Action) (old : Request) : CascadeFrame s a old (Stays p) where
  toFrame := frame_stays p
  cleanupCreated w deployId message id h := by
    obtain ⟨cleanups, hc⟩ :=
      w.cluster.createCleanup_eq (cascadeCleanup s a old.id deployId message id)
    show p ∈ (w.cluster.createCleanup _).2.pending
    rw [hc]
    exact h
  bounced _ _ h := h
  stored _ _ _ _ _ _ h := h

theorem restoreFrame_stays (a : Action) (entry : Request.Entry) :
    RestoreFrame s a entry (Stays p) where
  toFrame := frame_stays p
  updated w c new event message _ _ hc h := by
    obtain ⟨-, -, more, -, rfl⟩ := Cluster.updateRequest_eq_ok hc
    exact List.mem_append_left more h
  unpaused w c message hc h := by
    obtain ⟨old, more, -, -, rfl⟩ := Cluster.unpause_eq_ok hc
    exact List.mem_append_left more h
  notified _ _ _ _ h := h

/-- Whatever fails, a revert takes an entry from the queue only if it calls off a bounce of the
request that the entry is for. -/
theorem revert_stays {a : Action} (hp : a.kind = .bounce → p.requestId ≠ a.requestId)
    (entry : Request.Entry) (message : String) : Keeps (Stays p) (revert s a entry message).run := by
  have hrestore := restoreFrame_stays (s := s) (p := p) a entry
  unfold revert
  cases hundo : a.undo with
  | bounce deployId =>
      have hkind : a.kind = .bounce := Action.kind_eq_bounce_iff.mpr ⟨deployId, hundo⟩
      exact (callOffFrame_stays (hp hkind)).revertBounce deployId message
  | pause => exact hrestore.revertPause message
  | scale n => exact hrestore.revertScale (cascadeFrame_stays a entry.request) n message
  | skipHealthchecks flag => exact hrestore.revertSkipHealthchecks flag message

theorem Happens.stays {ev : Event} {w w' : World} (h : Happens s ev w w')
    (hp : ∀ kind a, ev = .visit kind a → a.kind = .bounce → p.requestId ≠ a.requestId) :
    Stays p w w' := by
  intro hmem
  cases h with
  | listed quiet => exact quiet.cluster ▸ hmem
  | waiting due quiet => exact quiet.cluster ▸ hmem
  | malformed due quiet => exact quiet.cluster ▸ hmem
  | missing due absent quiet => exact quiet.cluster ▸ hmem
  | @reverted kind a _ w₁ _ lifetime entry due lives present before quiet =>
      rw [quiet.cluster]
      exact revert_stays (hp kind a rfl) entry _ w₁ (before.cluster ▸ hmem)

/-! ## What is queued -/

/-- The visit to a due bounce whose request is there queues the cancellation. -/
theorem Happens.cancels (hs : s.Reliable) {kind : Kind} {a : Action} {w w' : World}
    (h : Happens s (.visit kind a) w w') {deployId : String} (hundo : a.undo = .bounce deployId)
    {lifetime : UInt64} (hdue : a.isDue s.now s.config = .ok true)
    (hlives : a.lifetime s.config = .ok lifetime)
    (hpresent : w.cluster.requests.contains a.requestId = true) :
    cancellation s a deployId (a.expiryMessage lifetime) ∈ w'.cluster.pending := by
  obtain ⟨entry, hentry⟩ := OrderedMap.contains_iff.mp hpresent
  cases h with
  | waiting due quiet => exact nomatch due.symm.trans hdue
  | malformed due quiet => exact nomatch due.symm.trans hdue
  | missing due absent quiet => exact nomatch absent.symm.trans hentry
  | @reverted _ _ _ w₁ _ lifetime' entry' due lives present before quiet =>
      obtain rfl : lifetime' = lifetime := Except.ok.inj (lives.symm.trans hlives)
      have hturns := revertBounce_turns (hs.spares a.requestId) deployId
        (a.expiryMessage lifetime') w₁.cluster
      have hcluster := (hturns w₁ rfl).2
      rw [quiet.cluster]
      show _ ∈ (after (revert s a entry' _).run w₁).cluster.pending
      rw [revert, hundo]
      dsimp only
      rw [hcluster, Cluster.calledOff_pending]
      exact List.mem_append_right _ List.mem_cons_self

/-! ## A poll -/

/-- **CANCELLATIONS**: after a poll whose calls do not fail, the entry that cancels it is queued for
every due bounce that the store held, if its request is there. -/
theorem poll_cancels (hs : s.Reliable) (w : World) (hst : w.store.WellKeyed) {a : Action}
    (ha : a ∈ w.store.actions .bounce) {deployId : String} (hundo : a.undo = .bounce deployId)
    {lifetime : UInt64} (hdue : a.isDue s.now s.config = .ok true)
    (hlives : a.lifetime s.config = .ok lifetime)
    (hpresent : w.cluster.requests.contains a.requestId = true) :
    cancellation s a deployId (a.expiryMessage lifetime) ∈
      (after (poll s) w).cluster.pending := by
  have hpairwise := schedule_pairwise hst
  have hend := (poll_run hs.sparesPoll w).1.induct (fun done w' =>
    (∀ r, w'.cluster.requests.contains r = w.cluster.requests.contains r) ∧
    (.visit .bounce a ∈ done →
      cancellation s a deployId (a.expiryMessage lifetime) ∈ w'.cluster.pending)) ?_ ?_
  · exact hend.2 (mem_schedule_of_mem_actions ha)
  · exact ⟨fun _ => rfl, nofun⟩
  · rintro done ev rest w₁ w₂ hes ⟨hcontains, hdone⟩ hev
    refine ⟨fun r => ((hev.cleans hs).contains r).trans (hcontains r), fun hmem => ?_⟩
    rcases List.mem_append.mp hmem with hbefore | hlast
    · -- what comes after the visit to the bounce is another event
      refine hev.stays ?_ (hdone hbefore)
      rintro kind b rfl hb
      have hin : Event.visit kind b ∈ schedule w.store := by
        rw [hes]
        exact List.mem_append_right done List.mem_cons_self
      obtain rfl : kind = .bounce :=
        (hst.of_mem_actions (mem_actions_of_mem_schedule hin)).1.symm.trans hb
      rw [hes, List.pairwise_append] at hpairwise
      exact (hpairwise.2.2 _ hbefore _ List.mem_cons_self).2 _ a b rfl rfl
    · obtain rfl := List.mem_singleton.mp hlast
      exact hev.cancels hs hundo hdue hlives ((hcontains a.requestId).trans hpresent)

end Lapse.Poll
