import Lapse.Proofs.Poll.CallOff
import Lapse.Proofs.Poll.Requests
import Lapse.Proofs.Poll.Tallies

/-!
# How a visit without failures ends

While no call fails, the record and the request tell how a visit ends: undoing an action is refused
where it would leave no instances, and there is nothing to undo where the request is not paused.  What
a poll finds of a request when it comes to a kind is what the due actions of the kinds before it made of
the request, so that the tallies are known before the poll begins.
-/

namespace Lapse

/-- How undoing an action against an entry ends when no call fails. -/
def Action.endingOn (a : Action) (e : Request.Entry) : Poll.Ending :=
  match a.undo with
  | .bounce _ => .applied
  | .pause => if e.state = .paused then .applied else .skipped
  | .scale n => if n = 0 then .failed else .applied
  | .skipHealthchecks _ => if e.request.instances = 0 then .failed else .applied

namespace Action

variable {a : Action} {e : Request.Entry}

theorem endingOn_bounce {deployId : String} (h : a.undo = .bounce deployId) :
    a.endingOn e = .applied := by
  rw [endingOn, h]

theorem endingOn_pause_iff (h : a.undo = .pause) :
    a.endingOn e = .applied ↔ e.state = .paused := by
  simp [endingOn, h]

theorem endingOn_scale_iff {n : UInt32} (h : a.undo = .scale n) :
    a.endingOn e = .applied ↔ n ≠ 0 := by
  simp [endingOn, h]

theorem endingOn_skipHealthchecks_iff {flag : Option Bool} (h : a.undo = .skipHealthchecks flag) :
    a.endingOn e = .applied ↔ e.request.instances ≠ 0 := by
  simp [endingOn, h]

/-- A scale restores the count of instances that it saved. -/
theorem instances_undone_scale {n : UInt32} (h : a.undo = .scale n)
    (happlied : a.endingOn e = .applied) : (a.undone e).request.instances = n := by
  rw [undone, h]
  dsimp only
  rw [if_neg ((endingOn_scale_iff h).mp happlied)]

/-- Undoing other actions than scales leaves the count of instances. -/
theorem instances_undone (hkind : a.kind ≠ .scale) (e : Request.Entry) :
    (a.undone e).request.instances = e.request.instances := by
  rw [undone]
  split
  · rfl
  · split <;> rfl
  · next n hundo => exact absurd (kind_eq_scale_iff.mpr ⟨n, hundo⟩) hkind
  · split <;> rfl

end Action

namespace Poll

open World (say)

variable {s : Conditions} {kind : Kind} {a : Action} {w w' : World} {α β : Type}

/-! ## Steps that succeed -/

/-- A step succeeds in every world, with an answer of this sort. -/
def Yields (act : Step α) (P : α → Prop) : Prop := ∀ w, ∃ a, answer act.run w = .ok a ∧ P a

namespace Yields

variable {P : α → Prop} {Q : β → Prop}

theorem bind {x : Step α} {f : α → Step β} (hx : Yields x P) (hf : ∀ a, P a → Yields (f a) Q) :
    Yields (x >>= f) Q := by
  intro w
  obtain ⟨a, hok, ha⟩ := hx w
  rw [answer_step_bind_ok hok]
  exact hf a ha _

theorem call (hs : s.Reliable) {during : Option String} {op : Operation} {act : Step α}
    (h : Yields act P) : Yields (call s during op act) P := by
  intro w
  rw [(run_call_ok (hs.spares during w.calls op) act).1]
  exact h _

theorem catching {x : Step α} (hx : Yields x P) (f : Failure → Step α) :
    Yields (tryCatch x f) P := by
  intro w
  obtain ⟨a, hok, ha⟩ := hx w
  rw [answer_step_catch, hok]
  exact ⟨a, rfl, ha⟩

end Yields

theorem createCleanup_yields (hs : s.Reliable) (during : String) (cleanup : Request.Cleanup) :
    Yields (createCleanup s during cleanup) fun _ => True := by
  intro w
  cases hfault : s.faults w.calls ⟨during, .createCleanup cleanup⟩ with
  | none => exact ⟨_, (run_createCleanup hfault).1, trivial⟩
  | some fault =>
      have hmeet : answer (liftM (meet s during (.createCleanup cleanup)) :
          Step (Option Fault)).run w = .ok (some fault) := congrArg Except.ok hfault
      unfold createCleanup
      rw [answer_step_bind_ok hmeet]
      cases fault with
      | fails why => exact absurd hfault (hs _ _ why)
      | present => exact ⟨_, rfl, trivial⟩

/-- The bounce after a scale does not fail while none of its calls does. -/
theorem bounceAfterScale_yields (hs : s.Reliable) (a : Action) (old new : Request) :
    Yields (bounceAfterScale s a old new) fun _ => True := by
  have hsaid : ∀ level message, Yields (liftM (say level message) : Step Unit) fun _ => True :=
    fun _ _ _ => ⟨(), rfl, trivial⟩
  have hcalled : ∀ {β : Type} {op : Operation} {act : Step β}, Yields act (fun _ => True) →
      Yields (call s a.requestId op act) fun _ => True := Yields.call hs
  unfold bounceAfterScale
  refine (hsaid _ _).bind fun _ _ => ?_
  refine (hcalled fun w => ⟨_, rfl, trivial⟩).bind fun deploy _ => ?_
  cases deploy with
  | none => exact hsaid _ _
  | some deployId =>
      refine Yields.bind (P := fun _ => True) (fun w => ⟨w, rfl, trivial⟩) fun _ _ => ?_
      refine (createCleanup_yields hs a.requestId _).bind fun creation _ => ?_
      cases creation with
      | existed => exact hsaid _ _
      | created =>
          refine Yields.catching (.bind (P := fun _ => True) ?_ fun _ _ => ?_) _
          · exact hcalled fun w => ⟨_, rfl, trivial⟩
          · exact hcalled fun w => ⟨_, rfl, trivial⟩

/-- What follows the update in the revert of a scale. -/
def afterUpdate (s : Conditions) (a : Action) (old new : Request) : Step Outcome := do
  if new.bouncesAfterScale then
    bounceAfterScale s a old new
  notifyScaled s a.requestId new old.instances a.user
  return .applied

theorem afterUpdate_yields (hs : s.Reliable) (a : Action) (old new : Request) :
    Yields (afterUpdate s a old new) (· = .applied) := by
  have hnotified : Yields (do
      notifyScaled s a.requestId new old.instances a.user
      return Outcome.applied : Step Outcome) (· = .applied) :=
    Yields.bind (P := fun _ => True) (Yields.call hs fun w => ⟨_, rfl, trivial⟩)
      fun _ _ w => ⟨_, rfl, rfl⟩
  unfold afterUpdate
  dsimp only
  split
  · exact (bounceAfterScale_yields hs a old new).bind fun _ _ => hnotified
  · exact hnotified

/-! ## Reverts -/

section Revert

variable (hs : s.Reliable) {entry : Request.Entry}
  (hget : w.cluster.requests.get? a.requestId = some entry) (hid : entry.request.id = a.requestId)

include hs hget

/-- What begins with an update succeeds unless that leaves no instances. -/
theorem ofAnswer_update (new : Request) (hnew : new.id = a.requestId) (during : String)
    (state : Request.State) (event : Option Request.Event) (user message : String)
    {f : Unit → Step Outcome} (hf : Yields (f ()) (· = .applied)) :
    Ending.ofAnswer
        (answer (updateRequest s during new state event user message >>= f).run w) =
      if new.instances = 0 then .failed else .applied := by
  by_cases hn : new.instances = 0
  · rw [if_pos hn, answer_step_bind, (updateRequest_refused hs hn _ _ _ _ _ w).1]
    rfl
  · obtain ⟨more, hturns⟩ :=
      updateRequest_turns hs (hnew ▸ hget) hn during state event user message
    rw [if_neg hn, answer_step_bind_ok (hturns w rfl).1]
    obtain ⟨outcome, hok, rfl⟩ :=
      hf (after (updateRequest s during new state event user message).run w)
    rw [hok]
    rfl

include hid

/-- **ENDINGS**: how undoing an action ends depends on its request alone. -/
theorem ofAnswer_revert (message : String) :
    .ofAnswer (answer (revert s a entry message).run w) = a.endingOn entry := by
  unfold revert
  rw [Action.endingOn]
  cases hundo : a.undo with
  | bounce deployId =>
      have hturns := revertBounce_turns (hs.spares a.requestId) deployId message w.cluster
      dsimp only
      rw [(hturns w rfl).1]
      rfl
  | pause =>
      dsimp only
      by_cases hstate : entry.state = .paused
      · obtain ⟨more, hturns⟩ := revertPause_turns hs hstate (hid ▸ hget) a message
        rw [(hturns w rfl).1, if_pos hstate]
        rfl
      · unfold revertPause
        rw [if_neg hstate, if_neg hstate]
        rfl
  | scale n =>
      exact ofAnswer_update hs hget { entry.request with instances := n } hid a.requestId
        entry.state (some .scaleReverted) a.user message (afterUpdate_yields hs a entry.request _)
  | skipHealthchecks flag =>
      exact ofAnswer_update hs hget { entry.request with skipHealthchecks := flag } hid
        a.requestId entry.state none a.user message fun w => ⟨_, rfl, rfl⟩

end Revert

/-! ## Visits -/

/-- How a visit ends that finds this entry of the request, when no call fails. -/
def Conditions.foreseen (s : Conditions) (a : Action) (found : Option Request.Entry) : Ending :=
  match a.standing s.now s.config with
  | .malformed _ => .malformed
  | .waiting => .waiting
  | .due _ =>
    match found with
    | none => .missing
    | some entry => a.endingOn entry

theorem ending_eq (hs : s.Reliable) (hkeyed : w.cluster.Keyed) (a : Action) :
    s.ending a w = s.foreseen a (w.cluster.requests.get? a.requestId) := by
  unfold Conditions.ending Conditions.foreseen
  cases a.standing s.now s.config with
  | malformed why => rfl
  | waiting => rfl
  | due lifetime =>
      cases hget : w.cluster.requests.get? a.requestId with
      | none => rfl
      | some entry =>
          have hid : entry.request.id = a.requestId := hkeyed a.requestId entry hget
          rw [← (run_findRequest hs.sparesPoll a.requestId w).2.cluster] at hget
          exact ofAnswer_revert hs hget hid _

/-- A visit leaves the entries of other requests. -/
theorem Happens.get?_other (hs : s.Reliable) (h : Happens s (.visit kind a) w w')
    (hkeyed : w.cluster.Keyed) {r : String} (hr : a.requestId ≠ r) :
    w'.cluster.requests.get? r = w.cluster.requests.get? r := by
  rw [h.requests hs hkeyed, OrderedMap.get?_map]
  cases w.cluster.requests.get? r with
  | none => rfl
  | some e => exact congrArg some (if_neg fun h => hr h.1.symm)

/-- Visits for different requests end as the entries before the first of them tell. -/
theorem Ends.foreseen (hs : s.Reliable) {es : List (Action × Ending)} (h : Ends s kind es w w')
    (hkeyed : w.cluster.Keyed)
    (hes : (es.map Prod.fst).Pairwise fun a b => a.requestId ≠ b.requestId) :
    es.map Prod.snd =
      (es.map Prod.fst).map fun a => s.foreseen a (w.cluster.requests.get? a.requestId) := by
  induction h with
  | done => rfl
  | next first _ ih =>
      obtain ⟨hfirst, hrest⟩ := List.pairwise_cons.mp hes
      rw [List.map_cons, List.map_cons, List.map_cons, ih (first.keyed hkeyed) hrest,
        ending_eq hs hkeyed]
      refine congrArg _ (List.map_congr_left fun b hb => ?_)
      rw [first.get?_other hs hkeyed (hfirst b hb)]

/-! ## A poll -/

/-- What a poll finds of a request when it comes to a kind: the entry at the beginning, as the due
actions of the kinds before have changed it. -/
def entryAt (s : Conditions) (w : World) (kind : Kind) (r : String) : Option Request.Entry :=
  (w.cluster.requests.get? r).map fun e =>
    (Kind.all.takeWhile (· ≠ kind)).foldl
      (fun e kind => restored kind (dueAction? s w.store kind r) e) e

theorem get?_upTo (hs : s.Reliable) (hst : w.store.WellKeyed) (hkeyed : w.cluster.Keyed)
    (kind : Kind) (r : String) :
    (w.upTo s kind).cluster.requests.get? r = entryAt s w kind r := by
  rw [(upTo_run hs.sparesPoll kind w).requests hs hkeyed, OrderedMap.get?_map, entryAt]
  refine congrArg (fun f => Option.map f _) (funext fun e => ?_)
  rw [scheduleOf, List.foldl_flatMap]
  refine congrArg (fun f => List.foldl f e _) (funext fun e => funext fun kind => ?_)
  -- listing a kind changes no entry
  rw [List.foldl_cons]
  refine (foldl_visits hst kind r e).trans (elim_undone (fun a ha => ?_) e)
  exact kind_of_dueAction? hst ha

/-- **FORESIGHT**: while no call fails, the store and the requests before a poll tell the tally of
each kind. -/
theorem kind?_foreseen (hs : s.Reliable) (hst : w.store.WellKeyed) (hkeyed : w.cluster.Keyed)
    (kind : Kind) : (answer (poll s) w).kind? kind =
      some (.ofEndings kind ((w.store.actions kind).map fun a =>
        s.foreseen a (entryAt s w kind a.requestId))) := by
  obtain ⟨es, w₁, hes, hlisted, hends, htally⟩ := poll_ends hs.sparesPoll kind w
  have hcluster : w₁.cluster = (w.upTo s kind).cluster := hlisted.cluster
  have hends := hends.foreseen hs (hcluster ▸ (upTo_run hs.sparesPoll kind w).keyed hkeyed)
    (hes ▸ hst.actions_pairwise kind)
  rw [htally, hends, hes, hcluster]
  simp only [get?_upTo hs hst hkeyed]

end Poll

end Lapse
