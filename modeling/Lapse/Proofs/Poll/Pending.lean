import Lapse.Proofs.Duration
import Lapse.Proofs.Poll.CallOff
import Lapse.Proofs.Poll.Schedule

/-!
# The pending queue after a bounce expired

Calling off a bounce looks up one pending entry for its request and deploy, the first, and removes
it if the bounce caused it.  Entries that another action caused are never touched.  But an entry
that the bounce caused is missed when it is not, or does not equal, the one that is looked up.
-/

namespace Lapse.Poll

variable {s : Conditions}

/-- Whether a pending entry is one that the bounce `a` of a deploy caused. -/
def tagged (a : Action) (deployId : String) (p : Request.Pending) : Bool :=
  p.requestId = a.requestId && p.deployId = deployId && p.actionId = some a.actionId

theorem tagged_iff {a : Action} {deployId : String} {p : Request.Pending} :
    tagged a deployId p = true ↔
      p.requestId = a.requestId ∧ p.deployId = deployId ∧ p.actionId = some a.actionId := by
  rw [tagged]
  simp [and_assoc]

/-- The entry that is looked up is for the request and the deploy. -/
theorem of_pending?_eq_some {c : Cluster} {r deployId : String} {entry : Request.Pending}
    (h : c.pending? r deployId = some entry) :
    entry ∈ c.pending ∧ entry.requestId = r ∧ entry.deployId = deployId := by
  have hp := List.find?_some h
  simp only [Bool.and_eq_true, decide_eq_true_eq] at hp
  exact ⟨List.mem_of_find?_eq_some h, hp.1, hp.2⟩

/-- Withdrawing takes away no entry but those that the bounce caused. -/
theorem filter_pendingWithdrawn (c : Cluster) (a : Action) (deployId : String) :
    (c.pendingWithdrawn a deployId).pending.filter (fun p => !tagged a deployId p) =
      c.pending.filter (fun p => !tagged a deployId p) := by
  rw [Cluster.pendingWithdrawn]
  cases hfound : c.pending? a.requestId deployId with
  | none => rfl
  | some entry =>
      dsimp only
      by_cases hcaused : entry.actionId = some a.actionId
      · rw [if_pos hcaused]
        obtain ⟨-, hr, hd⟩ := of_pending?_eq_some hfound
        have htagged : tagged a deployId entry = true := tagged_iff.mpr ⟨hr, hd, hcaused⟩
        show (c.pending.filter (· ≠ entry)).filter _ = _
        rw [List.filter_filter]
        refine List.filter_congr fun p _ => ?_
        by_cases hp : p = entry
        · subst hp
          rw [htagged]
          rfl
        · simp [hp]
      · rw [if_neg hcaused]

/-- An entry that the bounce caused is missed exactly if it is not the one that is looked up. -/
theorem pendingWithdrawn_untagged_iff (c : Cluster) (a : Action) (deployId : String) :
    (∀ p ∈ (c.pendingWithdrawn a deployId).pending, tagged a deployId p = false) ↔
      ∀ p ∈ c.pending, tagged a deployId p = true → c.pending? a.requestId deployId = some p := by
  rw [Cluster.pendingWithdrawn]
  cases hfound : c.pending? a.requestId deployId with
  | none =>
      -- an entry that the bounce caused would have been found
      have hnone : ∀ p ∈ c.pending, tagged a deployId p = false := by
        intro p hp
        rw [Bool.eq_false_iff]
        intro htagged
        obtain ⟨hr, hd, -⟩ := tagged_iff.mp htagged
        have hno := List.find?_eq_none.mp hfound p hp
        exact hno (by simp [hr, hd])
      exact ⟨fun h p hp htagged => absurd htagged (by rw [h p hp]; decide), fun _ => hnone⟩
  | some entry =>
      obtain ⟨hmem, hr, hd⟩ := of_pending?_eq_some hfound
      dsimp only
      by_cases hcaused : entry.actionId = some a.actionId
      · rw [if_pos hcaused]
        show (∀ p ∈ c.pending.filter (· ≠ entry), _) ↔ _
        constructor
        · intro h p hp htagged
          by_contra hne
          have hp' : p ∈ c.pending.filter (· ≠ entry) :=
            List.mem_filter.mpr ⟨hp, decide_eq_true fun heq => hne (congrArg some heq.symm)⟩
          exact Bool.false_ne_true ((h p hp').symm.trans htagged)
        · intro h p hp
          obtain ⟨hp, hne⟩ := List.mem_filter.mp hp
          rw [Bool.eq_false_iff]
          exact fun htagged => of_decide_eq_true hne (Option.some.inj (h p hp htagged)).symm
      · -- the entry that was found is of another action, so none that the bounce caused equals it
        rw [if_neg hcaused]
        constructor
        · intro h p hp htagged
          exact absurd htagged (by rw [h p hp]; decide)
        · intro h p hp
          rw [Bool.eq_false_iff]
          intro htagged
          have heq : entry = p := Option.some.inj (h p hp htagged)
          exact hcaused (heq ▸ (tagged_iff.mp htagged).2.2)

/-! ## A visit -/

/-- A due bounce whose request is there is called off. -/
theorem visit_calls_off (hs : s.Reliable) {a : Action} {deployId : String}
    (hundo : a.undo = .bounce deployId) {lifetime : UInt64}
    (hdue : a.standing s.now s.config = .due lifetime) (t : Tally) {w : World}
    (hpresent : w.cluster.requests.contains a.requestId = true) :
    (after (visit s a t) w).cluster =
      w.cluster.calledOff s a deployId (a.expiryMessage lifetime) := by
  obtain ⟨entry, hentry⟩ := OrderedMap.contains_iff.mp hpresent
  obtain ⟨hdue', hl⟩ := of_standing_due hdue
  cases (visit_happens hs.sparesPoll a t w).1 with
  | waiting due quiet => exact nomatch due.symm.trans hdue'
  | malformed due quiet => exact nomatch due.symm.trans hdue'
  | missing due absent quiet => exact nomatch absent.symm.trans hentry
  | @reverted _ _ _ w₁ _ lifetime' entry' due lives present before quiet =>
      have hlifetime : lifetime' = lifetime := Except.ok.inj (lives.symm.trans hl)
      have hturns := revertBounce_turns (hs.spares a.requestId) deployId (a.expiryMessage lifetime)
        w.cluster
      rw [quiet.cluster, hlifetime]
      show (after (revert s a entry' (a.expiryMessage lifetime)).run w₁).cluster = _
      rw [revert, hundo]
      exact (hturns w₁ before.cluster).2

/-- **PENDING**: when a due bounce is undone without failures, the entry that cancels it comes
last, every entry that it did not cause stays in its place, and those that it caused are all gone
exactly if each of them equals the one that is looked up. -/
theorem visit_withdraws_pending_iff (hs : s.Reliable) {a : Action} {deployId : String}
    (hundo : a.undo = .bounce deployId) {lifetime : UInt64}
    (hdue : a.standing s.now s.config = .due lifetime) (t : Tally) (w : World)
    (hpresent : w.cluster.requests.contains a.requestId = true) :
    ∃ kept last, (after (visit s a t) w).cluster.pending = kept ++ [last] ∧
      Cancels s a deployId (a.expiryText lifetime) last ∧
      kept.filter (fun p => !tagged a deployId p) =
        w.cluster.pending.filter (fun p => !tagged a deployId p) ∧
      ((∀ p ∈ kept, tagged a deployId p = false) ↔ ∀ p ∈ w.cluster.pending,
        tagged a deployId p = true → w.cluster.pending? a.requestId deployId = some p) := by
  refine ⟨(w.cluster.pendingWithdrawn a deployId).pending, _, ?_, cancels_cancellation .., ?_, ?_⟩
  · rw [visit_calls_off hs hundo hdue t hpresent, Cluster.calledOff_pending, a.expiryMessage_eq]
  · exact filter_pendingWithdrawn w.cluster a deployId
  · exact pendingWithdrawn_untagged_iff w.cluster a deployId

/-! A newer bounce of the same deploy, queued first, hides the entry of the one that expired. -/

/-- A bounce of five seconds. -/
def webBounce : Action where
  requestId := "web"
  actionId := "b-1"
  user := "alice"
  startMillis := 0
  terms := { durationMillis := some 5000 }
  undo := .bounce "d1"

/-- The pending entry of a bounce. -/
def bounceEntry (timestamp : Int64) (actionId : String) : Request.Pending where
  requestId := "web"
  deployId := "d1"
  timestamp := timestamp
  user := "alice"
  reason := .bounce
  message := none
  actionId := some actionId
  skipHealthchecks := none

/-- Two bounces of one deploy are pending, and the later one is stored. -/
def bouncedTwice : World where
  store := Store.save .empty webBounce
  cluster.requests := OrderedMap.empty.insert "web" ⟨{ id := "web", instances := 3 }, .active⟩
  cluster.pending := [bounceEntry 1 "b-2", bounceEntry 2 "b-1"]

theorem visit_withdraws_pending_bouncedTwice :
    ∃ kept last,
      (after (visit (.calm 10000) webBounce { kind := .bounce }) bouncedTwice).cluster.pending =
        kept ++ [last] ∧
      Cancels (.calm 10000) webBounce "d1" (webBounce.expiryText 5000) last ∧
      kept.filter (fun p => !tagged webBounce "d1" p) = [bounceEntry 1 "b-2"] ∧
      ((∀ p ∈ kept, tagged webBounce "d1" p = false) ↔ ∀ p ∈ bouncedTwice.cluster.pending,
        tagged webBounce "d1" p = true → bouncedTwice.cluster.pending? "web" "d1" = some p) :=
  visit_withdraws_pending_iff (Conditions.reliable_calm 10000) rfl rfl { kind := .bounce }
    bouncedTwice (by decide +kernel)

theorem visit_keeps_tagged_bouncedTwice :
    (after (visit (.calm 10000) webBounce { kind := .bounce }) bouncedTwice).cluster.pending =
        [bounceEntry 1 "b-2", bounceEntry 2 "b-1",
          { requestId := "web", deployId := "d1", timestamp := 10000, user := "alice",
            reason := .cancelBounce, message := some "Bounce expired after 00:05.0",
            actionId := some "b-1", skipHealthchecks := none }] ∧
      tagged webBounce "d1" (bounceEntry 2 "b-1") = true := by
  decide +kernel

end Lapse.Poll
