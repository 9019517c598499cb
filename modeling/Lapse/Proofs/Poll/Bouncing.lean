import Lapse.Proofs.Poll.Correlation

/-!
# A scale that ends while its request is bouncing

Before a bounce after a scale its cleanup is ordered, and there is to be no bounce when that
cleanup exists already.  But a cleanup is known by its request and its action id, and the id of a
bounce after a scale is made for it.  So the cleanup never exists, whatever cleanups the request
has: a due scale that is undone is followed by a bounce exactly if the request uses a deploy.
-/

namespace Lapse.Poll

variable {s : Conditions} {r : String} {w : World}

/-- No call meets a fault. -/
def Conditions.Smooth (s : Conditions) : Prop := ∀ n c, s.faults n c = none

theorem Conditions.Smooth.reliable (hs : s.Smooth) : s.Reliable :=
  fun n c _ h => nomatch (hs n c).symm.trans h

/-! ## The cleanup is new -/

/-- A cleanup with an action id that no cleanup of its request has is ordered. -/
theorem createCleanup_created (hs : s.Smooth) {cleanup : Request.Cleanup}
    (h : ∀ old ∈ w.cluster.requestCleanups, old.requestId = cleanup.requestId →
      old.actionId ≠ cleanup.actionId) (during : String) :
    answer (createCleanup s during cleanup).run w = .ok .created := by
  rw [(run_createCleanup (hs w.calls _)).1, Cluster.createCleanup, if_neg]
  rw [List.any_eq_true]
  rintro ⟨old, hmem, hold⟩
  rw [Bool.and_eq_true, decide_eq_true_eq, decide_eq_true_eq] at hold
  exact h old hmem hold.1 hold.2

theorem run_inUseDeploy (hs : s.Reliable) (during r : String) (w : World) :
    answer (inUseDeploy s during r).run w = .ok (w.cluster.inUseDeploys.get? r) ∧
      Quiet w (after (inUseDeploy s during r).run w) := by
  have hok := hs.spares (some during) w.calls (.inUseDeploy r)
  unfold inUseDeploy
  rw [(run_call_ok hok _).1, (run_call_ok hok _).2]
  exact ⟨rfl, Quiet.note w _ rfl⟩

/-- Storing an action orders no cleanup. -/
theorem saveAction_orders_nothing (during : String) (b : Action) :
    Keeps (fun w w' => w'.cluster.requestCleanups = w.cluster.requestCleanups)
      (saveAction s during b).run := by
  intro w
  rcases saveAction_adds during w b (s := s) with ⟨-, hadds⟩ | ⟨-, hadds⟩
  · exact hadds.cleanups.trans (List.append_nil _)
  · exact hadds.cleanups.trans (List.append_nil _)

/-- After a step that answers quietly what follows it is looked at. -/
theorem quiet_bind {α β : Type} {x : Step α} {f : α → Step β} {a : α} {P : World → Prop}
    (hx : answer x.run w = .ok a ∧ Quiet w (after x.run w))
    (h : ∀ v, Quiet w v → P (after (f a).run v)) : P (after (x >>= f).run w) := by
  rw [after_step_bind_ok hx.1]
  exact h _ hx.2

/-- The bounce after a scale orders a cleanup, whatever cleanups there are. -/
theorem bounceAfterScale_orders (hs : s.Smooth) (a : Action) (old new : Request)
    (hid : new.id = old.id) {deployId : String}
    (hdeploy : w.cluster.inUseDeploys.get? old.id = some deployId) (hfresh : s.Fresh old.id w) :
    ∃ cleanup, cleanup.requestId = old.id ∧
      (after (bounceAfterScale s a old new).run w).cluster.requestCleanups =
        w.cluster.requestCleanups ++ [cleanup] := by
  have hF := Frame.ofCluster Cluster.requestCleanups
  let Ordered (v : World) : Prop := ∃ cleanup, cleanup.requestId = old.id ∧
    v.cluster.requestCleanups = w.cluster.requestCleanups ++ [cleanup]
  unfold bounceAfterScale
  rw [hid]
  refine quiet_bind (P := Ordered) ⟨rfl, Quiet.logged w _⟩ fun v hv => ?_
  have hread := run_inUseDeploy hs.reliable a.requestId old.id v
  rw [hv.cluster, hdeploy] at hread
  refine quiet_bind (P := Ordered) hread fun u hu => ?_
  refine quiet_bind (P := Ordered) ⟨rfl, Quiet.refl u⟩ fun u' hu' => ?_
  replace hu' := (hv.trans hu).trans hu'
  rcases createCleanup_adds a.requestId u' (cascadeCleanup s a old.id deployId
    ("Bouncing after expiring scale by " ++ a.user) (s.freshId u.minted)) (s := s)
    with ⟨-, hadds⟩ | ⟨hother, -⟩
  · refine ⟨cascadeCleanup s a old.id deployId ("Bouncing after expiring scale by " ++ a.user)
      (s.freshId u.minted), rfl, ?_⟩
    rw [← hu'.cluster, ← hadds.cleanups]
    refine hF.step_rest _ (fun creation => ?_) u'
    -- recording and storing the bounce order nothing more
    cases creation with
    | existed => exact Frame.lift (hF.say _ _)
    | created =>
        refine hF.step_catch ?_ fun why => ?_
        · refine hF.step_bind (hF.change (fun _ => rfl) fun _ => rfl) fun _ => ?_
          exact saveAction_orders_nothing a.requestId _
        · exact hF.step_bind (Frame.lift (hF.say _ _)) fun _ => hF.throw why
  · refine absurd (createCleanup_created hs (fun cleanup hmem hr => ?_) a.requestId) hother
    rw [hu'.cluster] at hmem
    exact hfresh cleanup hmem hr u.minted (Nat.le_of_eq (hv.trans hu).minted.symm)

/-- An update that is accepted leaves the cleanups, the deploys and the ids in use. -/
theorem run_updateRequest (hs : s.Reliable) (new : Request) (hn : new.instances ≠ 0)
    (hin : w.cluster.requests.contains new.id = true) (during : String) (state : Request.State)
    (event : Option Request.Event) (user message : String) :
    let w' := after (updateRequest s during new state event user message).run w
    answer (updateRequest s during new state event user message).run w = .ok () ∧
      w'.cluster.requestCleanups = w.cluster.requestCleanups ∧
      w'.cluster.inUseDeploys = w.cluster.inUseDeploys ∧ w'.minted = w.minted := by
  obtain ⟨more, -, hok⟩ := @Cluster.updateRequest_of_contains w.cluster s.wall new state event user
    none (some message) hn hin
  have hrun := run_call_ok (hs.spares (some during) w.calls (.updateRequest new))
    (tryChange fun c => c.updateRequest s.wall new state event user none (some message))
  have hchange := run_tryChange_ok
    (f := fun c => c.updateRequest s.wall new state event user none (some message))
    (w := w.note ⟨some during, .updateRequest new⟩
      (s.faults w.calls ⟨some during, .updateRequest new⟩)) hok
  unfold updateRequest
  rw [hrun.1, hrun.2, hchange.1, hchange.2]
  exact ⟨rfl, rfl, rfl, rfl⟩

/-- Undoing a scale to some instances of a request that bounces after scaling, and uses a deploy,
orders a cleanup. -/
theorem revert_orders (hs : s.Smooth) {a : Action} {n : UInt32} (hundo : a.undo = .scale n)
    (hn : n ≠ 0) {entry : Request.Entry}
    (hin : w.cluster.requests.contains entry.request.id = true)
    (hbounces : entry.request.bouncesAfterScale = true) {deployId : String}
    (hdeploy : w.cluster.inUseDeploys.get? entry.request.id = some deployId)
    (hfresh : s.Fresh entry.request.id w) (message : String) :
    ∃ cleanup, cleanup.requestId = entry.request.id ∧
      (after (revert s a entry message).run w).cluster.requestCleanups =
        w.cluster.requestCleanups ++ [cleanup] := by
  have hF := Frame.ofCluster Cluster.requestCleanups
  obtain ⟨hok, hcleanups, hinUse, hminted⟩ := run_updateRequest hs.reliable
    { entry.request with instances := n } hn hin a.requestId entry.state
    (some .scaleReverted) a.user message
  unfold revert
  rw [hundo]
  unfold revertScale
  rw [after_step_bind_ok hok]
  generalize after (updateRequest s a.requestId _ entry.state (some .scaleReverted) a.user
    message).run w = w₁ at hcleanups hinUse hminted ⊢
  dsimp only
  rw [if_pos (show Request.bouncesAfterScale { entry.request with instances := n } = true
    from hbounces)]
  have hfresh₁ : s.Fresh entry.request.id w₁ := by
    intro cleanup hmem hr m hm
    rw [hcleanups] at hmem
    exact hfresh cleanup hmem hr m (hminted ▸ hm)
  obtain ⟨cleanup, hr, hordered⟩ := bounceAfterScale_orders hs a entry.request
    { entry.request with instances := n } rfl (hinUse ▸ hdeploy) hfresh₁
  refine ⟨cleanup, hr, ?_⟩
  rw [← hcleanups, ← hordered]
  exact hF.step_rest _ (fun _ => hF.notifyScaled _ _ _ (fun _ => rfl) a.requestId) w₁

/-! ## A poll -/

section Poll

variable {a : Action} {n : UInt32} {entry : Request.Entry}

/-- A visit to a due scale that a bounce follows orders a cleanup. -/
theorem Happens.orders (hs : s.Smooth) {u u' : World} (h : Happens s (.visit .scale a) u u')
    (hundo : a.undo = .scale n) (hn : n ≠ 0) (hdue : s.isDue a = true) (hkeyed : u.cluster.Keyed)
    {request : Request}
    (hpresent : (u.cluster.requests.get? a.requestId).map (·.request) = some request)
    (hbounces : request.bouncesAfterScale = true) {deployId : String}
    (hdeploy : u.cluster.inUseDeploys.get? a.requestId = some deployId)
    (hfresh : s.Fresh a.requestId u) :
    ∃ cleanup, cleanup.requestId = a.requestId ∧
      u'.cluster.requestCleanups = u.cluster.requestCleanups ++ [cleanup] := by
  cases h with
  | waiting due quiet =>
      rw [Conditions.isDue, due] at hdue
      cases hdue
  | malformed due quiet =>
      rw [Conditions.isDue, due] at hdue
      cases hdue
  | missing due absent quiet =>
      rw [absent] at hpresent
      cases hpresent
  | @reverted _ _ _ v _ lifetime entry due lives present before quiet =>
      rw [present] at hpresent
      have hrequest : entry.request = request := Option.some.inj hpresent
      have hid : entry.request.id = a.requestId := hkeyed a.requestId entry present
      rw [← before.cluster] at present hdeploy
      have hin : v.cluster.requests.contains entry.request.id = true :=
        OrderedMap.contains_iff.mpr ⟨entry, hid ▸ present⟩
      have hfresh' : s.Fresh entry.request.id v := hid ▸ hfresh.elsewhere (.of_quiet before)
      obtain ⟨cleanup, hr, hordered⟩ := revert_orders hs hundo hn hin (hrequest ▸ hbounces)
        (hid ▸ hdeploy) hfresh' (a.expiryMessage lifetime)
      refine ⟨cleanup, hr.trans hid, ?_⟩
      rw [quiet.cluster, ← before.cluster]
      exact hordered

/-- A poll that undoes a scale of a request that uses a deploy orders a cleanup for it. -/
theorem poll_orders (hs : s.Smooth) (hst : w.store.WellKeyed) (hkeyed : w.cluster.Keyed)
    (haction : w.store.action? .scale r = some a) (hundo : a.undo = .scale n) (hn : n ≠ 0)
    (hdue : s.isDue a = true) (hentry : w.cluster.requests.get? r = some entry)
    (hbounces : entry.request.bouncesAfterScale = true) {deployId : String}
    (hdeploy : w.cluster.inUseDeploys.get? r = some deployId) (hfresh : s.Fresh r w) :
    ∃ cleanup, (after (poll s) w).cluster.requestCleanups.filter (·.requestId = r) =
      w.cluster.requestCleanups.filter (·.requestId = r) ++ [cleanup] := by
  obtain ⟨w₁, w₂, w₃, hbounce, hpause, hscale, hskip⟩ := poll_kinds hs.reliable.sparesPoll w
  replace hbounce := hbounce.apart hst (by decide)
  replace hpause := hpause.apart hst (by decide)
  replace hskip := hskip.apart hst (by decide)
  rcases hscale.alone hst (hpause.keyed (hbounce.keyed hkeyed)) r with
    ⟨hnone, -⟩ | ⟨b, u, u', hb, hbr, hkeyed', hu, hvisit, hu'⟩
  · exact nomatch hnone.symm.trans haction
  obtain rfl : a = b := Option.some.inj (haction.symm.trans hb)
  subst hbr
  have hpresent : (u.cluster.requests.get? a.requestId).map (·.request) = some entry.request := by
    rw [hu.requests]
    show (w₂.cluster.requests.get? a.requestId).map (·.request) = _
    rw [hpause.requests (by decide), hbounce.requests (by decide), hentry]
    rfl
  have hinUse : u.cluster.inUseDeploys.get? a.requestId = some deployId := by
    rw [hu.inUse, ← hdeploy, ← hbounce.inUse, ← hpause.inUse]
    rfl
  have hcleanups : u.cluster.requestCleanups.filter (·.requestId = a.requestId) =
      w.cluster.requestCleanups.filter (·.requestId = a.requestId) := by
    rw [← hbounce.cleanups, ← hpause.cleanups]
    exact congrArg Cluster.requestCleanups hu.cluster
  obtain ⟨cleanup, hr, hordered⟩ := hvisit.orders hs hundo hn hdue hkeyed' hpresent hbounces hinUse
    ((((hfresh.apart hbounce).apart hpause).healed .scale).elsewhere hu)
  refine ⟨cleanup, ?_⟩
  have hlast := congrArg Cluster.requestCleanups hu'.cluster
  rw [hskip.cleanups]
  refine hlast.trans ?_
  show u'.cluster.requestCleanups.filter (·.requestId = a.requestId) = _
  rw [hordered, List.filter_append, hcleanups, List.filter_cons_of_pos (by simpa using hr)]
  rfl

/-- A poll begins no bounce of a request: it adds no cleanup for it, no entry on a bounce of it, and
stores no bounce of it. -/
structure Unbounced (r : String) (w w' : World) : Prop where
  cleanups : w'.cluster.requestCleanups.filter (·.requestId = r) =
    w.cluster.requestCleanups.filter (·.requestId = r)
  bounces : w'.bounces.filter (·.requestId = r) = w.bounces.filter (·.requestId = r)
  saved : w'.saved.filter (·.requestId = r) = w.saved.filter (·.requestId = r)

/-- **BOUNCING**: when no call meets a fault, undoing a due scale of a request that bounces after
scaling begins no bounce of it exactly if the scale is to no instances or the request uses no
deploy, whatever cleanups were ordered for it before. -/
theorem poll_unbounced_iff (hs : s.Smooth) (w : World) (hst : w.store.WellKeyed)
    (hkeyed : w.cluster.Keyed) (haction : w.store.action? .scale r = some a)
    (hundo : a.undo = .scale n) (hdue : s.isDue a = true)
    (hentry : w.cluster.requests.get? r = some entry)
    (hbounces : entry.request.bouncesAfterScale = true) (hfresh : s.Fresh r w) :
    Unbounced r w (after (poll s) w) ↔ n = 0 ∨ w.cluster.inUseDeploys.get? r = none := by
  constructor
  · intro hun
    by_contra hnot
    obtain ⟨hn, hdeploy⟩ := not_or.mp hnot
    obtain ⟨deployId, hdeploy⟩ := Option.ne_none_iff_exists'.mp hdeploy
    obtain ⟨cleanup, hordered⟩ :=
      poll_orders hs hst hkeyed haction hundo hn hdue hentry hbounces hdeploy hfresh
    rw [hun.cleanups] at hordered
    exact absurd (congrArg List.length hordered) (by simp)
  · intro hnothing
    obtain ⟨cs, -, -, hcs, -⟩ := poll_cascaded s w hst hkeyed
    -- a bounce of the request would follow this very scale
    have hothers : ∀ c ∈ cs, c.old.id ≠ r := by
      intro c hc hr
      have hfollows := hcs.follows c hc
      rw [hfollows.id] at hr
      have hscale : a = c.scale := by
        have hstored := hfollows.stored
        rw [hr, haction] at hstored
        exact Option.some.inj hstored
      rcases hnothing with rfl | hnone
      · obtain ⟨m, hm, hm0⟩ := hfollows.accepted
        rw [← hscale, hundo] at hm
        exact hm0 (Action.Undo.scale.inj hm).symm
      · have hinUse := hfollows.inUse
        rw [hr, hnone] at hinUse
        exact nomatch hinUse
    refine ⟨?_, ?_, ?_⟩
    · rw [hcs.cleanups]
      refine Cluster.filter_append_other Request.Cleanup.requestId _ fun cleanup hmem => ?_
      obtain ⟨c, hc, rfl⟩ := List.mem_map.mp hmem
      exact hothers c hc
    · rw [hcs.bounces]
      refine Cluster.filter_append_other Request.Record.requestId _ fun record hmem => ?_
      obtain ⟨c, hc, hrecord⟩ := List.mem_flatMap.mp hmem
      rw [Cascade.requestId_of_mem_records hrecord]
      exact hothers c hc
    · rw [hcs.saved]
      refine Cluster.filter_append_other Action.requestId _ fun b hmem => ?_
      obtain ⟨c, hc, hb⟩ := List.mem_flatMap.mp hmem
      rw [Cascade.requestId_of_mem_actions hb]
      exact hothers c hc

end Poll

/-- The request that was scaled is already bouncing when its scale ends. -/
def bouncingWeb : World :=
  { scaledWeb with
    cluster.requestCleanups := [{ user := "bob", reason := .incrementalBounce, timestamp := 20
                                  requestId := "web", deployId := some "d1", message := none
                                  actionId := some "b-0" }] }

theorem Conditions.smooth_calm (now : Int64) : (Conditions.calm now).Smooth := fun _ _ => rfl

theorem fresh_bouncingWeb (now : Int64) : (Conditions.calm now).Fresh "web" bouncingWeb := by
  intro cleanup hmem _ n _ hid
  rw [List.mem_singleton.mp hmem] at hid
  have hlist := congrArg String.toList (Option.some.inj hid)
  rw [show (Conditions.calm now).freshId n = "fresh-" ++ toString n from rfl,
    String.toList_append] at hlist
  exact absurd (List.cons.inj hlist).1 (by decide)

theorem poll_unbounced_iff_bouncingWeb :
    Unbounced "web" bouncingWeb (after (poll (.calm 10000)) bouncingWeb) ↔
      (2 : UInt32) = 0 ∨ bouncingWeb.cluster.inUseDeploys.get? "web" = none := by
  have haction : bouncingWeb.store.action? .scale "web" =
      some { requestId := "web", actionId := "s-1", user := "alice", startMillis := 0
             terms := { durationMillis := some 5000 }, undo := .scale 2 } := by
    decide +kernel
  have hentry : bouncingWeb.cluster.requests.get? "web" =
      some ⟨{ id := "web", instances := 5, bounceAfterScale := some true }, .active⟩ := rfl
  exact poll_unbounced_iff (Conditions.smooth_calm 10000) bouncingWeb scaledWeb_wellKeyed
    scaledWeb_keyed haction rfl (by decide +kernel) hentry rfl (fresh_bouncingWeb 10000)

/-- The request is bounced a second time. -/
theorem poll_bounces_again_bouncingWeb :
    (∃ cleanup ∈ bouncingWeb.cluster.requestCleanups, cleanup.requestId = "web" ∧
      cleanup.reason = .incrementalBounce) ∧
    ¬ Unbounced "web" bouncingWeb (after (poll (.calm 10000)) bouncingWeb) := by
  refine ⟨⟨_, List.mem_singleton.mpr rfl, rfl, rfl⟩, fun hun => ?_⟩
  have hcleanups := hun.cleanups
  revert hcleanups
  decide +kernel

end Lapse.Poll
