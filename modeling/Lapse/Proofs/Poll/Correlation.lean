import Lapse.Proofs.Poll.Apart
import Lapse.Proofs.Poll.Repeat

/-!
# The bounces after scales of a poll

A poll under any faults leaves a number of bounces after scales, each come to some stage.  What it
adds to the cleanups, to the history of bounces and to the store is what these bounces left, so that
cleanup, entry and action of one bounce agree.  A bounce that was not stored belongs to a revert
that failed.  Only the pass over the scales begins bounces; the passes before it change nothing that
they depend on, and the pass after it nothing that they left.
-/

namespace Lapse.Poll

variable {s : Conditions} {kind : Kind} {w w₁ w₂ w' : World}

/-! ## The bounces and what they left -/

/-- A bounce after a due scale of the store, to a count of instances that is accepted, of a request
that bounces after scaling and uses a deploy. -/
structure Cascade.Follows (s : Conditions) (w : World) (c : Cascade) : Prop where
  stored : w.store.action? .scale c.scale.requestId = some c.scale
  due : s.isDue c.scale = true
  accepted : ∃ n, c.scale.undo = .scale n ∧ n ≠ 0
  present : (w.cluster.requests.get? c.scale.requestId).map (·.request) = some c.old
  id : c.old.id = c.scale.requestId
  bounces : c.old.bouncesAfterScale = true
  inUse : w.cluster.inUseDeploys.get? c.scale.requestId = some c.deployId
  minted : ∃ n, c.actionId = s.freshId n

/-- Bounces that were begun since `w`, and what they left: each its cleanup, and those that came so
far their entry in the history and their record in the store. -/
structure Cascaded (s : Conditions) (w : World) (cs : List Cascade) (w' : World) : Prop where
  follows : ∀ c ∈ cs, c.Follows s w
  once : (cs.map (·.scale.requestId)).Nodup
  cleanups : w'.cluster.requestCleanups = w.cluster.requestCleanups ++ cs.map (·.cleanup s)
  bounces : w'.bounces = w.bounces ++ cs.flatMap (·.records s)
  saved : w'.saved = w.saved ++ cs.flatMap (·.actions s)
  kept : ∀ c ∈ cs, c.stage = .stored →
    w'.store.get? (Store.key .bounce c.scale.requestId) = some (c.action s).encode

namespace Cascaded

variable {cs : List Cascade}

theorem apart (h : Cascaded s w cs w₁) (h' : Apart kind w₁ w₂) (hkind : kind ≠ .bounce) :
    Cascaded s w cs w₂ where
  follows := h.follows
  once := h.once
  cleanups := h'.cleanups.trans h.cleanups
  bounces := h'.bounces.trans h.bounces
  saved := h'.saved.trans h.saved
  kept c hc hstage := (h'.records .bounce _ hkind.symm).trans (h.kept c hc hstage)

theorem nothing (h : Cascaded s w cs w₁) (h' : Adds [] [] [] w₁ w₂) : Cascaded s w cs w₂ where
  follows := h.follows
  once := h.once
  cleanups := by rw [h'.cleanups, List.append_nil, h.cleanups]
  bounces := by rw [h'.bounces, List.append_nil, h.bounces]
  saved := by rw [h'.saved, List.append_nil, h.saved]
  kept c hc hstage := by
    rw [h'.store]
    exact h.kept c hc hstage

/-- One more bounce, of another request than those before. -/
theorem concat (h : Cascaded s w cs w₁) {c : Cascade} (hc : c.Follows s w)
    (hnew : ∀ c' ∈ cs, c'.scale.requestId ≠ c.scale.requestId)
    (h' : Adds [c.cleanup s] (c.records s) (c.actions s) w₁ w₂) : Cascaded s w (cs ++ [c]) w₂ where
  follows c' hc' := by
    rcases List.mem_append.mp hc' with hc' | hc'
    · exact h.follows c' hc'
    · rw [List.mem_singleton.mp hc']
      exact hc
  once := by
    rw [List.map_append, List.nodup_append]
    refine ⟨h.once, List.pairwise_singleton _ _, ?_⟩
    intro r hr r' hr'
    obtain ⟨c', hc', rfl⟩ := List.mem_map.mp hr
    rw [List.mem_singleton.mp hr']
    exact hnew c' hc'
  cleanups := by rw [h'.cleanups, h.cleanups, List.append_assoc, List.map_append]; rfl
  bounces := by
    rw [h'.bounces, h.bounces, List.append_assoc, List.flatMap_append, List.flatMap_singleton]
  saved := by
    rw [h'.saved, h.saved, List.append_assoc, List.flatMap_append, List.flatMap_singleton]
  kept c' hc' hstage := by
    have hactions : c.actions s = if c.stage = .stored then [c.action s] else [] := rfl
    have hkey : (c.action s).kind = .bounce ∧ (c.action s).requestId = c.scale.requestId :=
      ⟨rfl, hc.id⟩
    rw [h'.store]
    rcases List.mem_append.mp hc' with hc' | hc'
    · -- the record of an earlier bounce stands under another key
      have hkept := h.kept c' hc' hstage
      by_cases hstored : c.stage = .stored
      · rw [hactions, if_pos hstored]
        show (w₁.store.save _).get? _ = _
        rw [Store.get?_save, if_neg, hkept]
        intro heq
        rw [hkey.1, hkey.2] at heq
        exact hnew c' hc' (Store.key_inj.mp heq).2
      · rw [hactions, if_neg hstored]
        exact hkept
    · rw [List.mem_singleton.mp hc'] at hstage ⊢
      rw [hactions, if_pos hstage]
      show (w₁.store.save _).get? _ = _
      rw [Store.get?_save, if_pos]
      rw [hkey.1, hkey.2]

end Cascaded

/-! ## The pass over the scales -/

/-- What the visits done so far have left of the bounces after scales. -/
structure Ledger (s : Conditions) (w : World) (done : List (Action × Bool)) (w' : World) :
    Prop where
  keyed : w'.cluster.Keyed
  inUse : w'.cluster.inUseDeploys = w.cluster.inUseDeploys
  requests : ∀ r, (∀ v ∈ done, v.1.requestId ≠ r) →
    (w'.cluster.requests.get? r).map (·.request) = (w.cluster.requests.get? r).map (·.request)
  /-- The kind that is listed later is as it was. -/
  later : ∀ r, w'.store.get? (Store.key .skipHealthchecks r) =
    w.store.get? (Store.key .skipHealthchecks r)
  cascades : ∃ cs, Cascaded s w cs w' ∧ ∀ c ∈ cs, ∃ failed, (c.scale, failed) ∈ done ∧
    (c.stage = .stored ∨ failed = true)

namespace Ledger

variable {done : List (Action × Bool)} {a : Action} {failed : Bool}

theorem apart (h : Ledger s w done w₁) (h' : Apart .scale w₁ w₂) : Ledger s w done w₂ := by
  obtain ⟨cs, hcs, horigin⟩ := h.cascades
  refine ⟨h'.keyed h.keyed, h'.inUse.trans h.inUse, fun r hr => ?_, fun r => ?_, cs,
    hcs.apart h' (by decide), horigin⟩
  · exact (h'.requests (by decide) r).trans (h.requests r hr)
  · exact (h'.records .skipHealthchecks r (by decide)).trans (h.later r)

/-- Before the pass over the scales no bounce was begun. -/
theorem start (h : Apart .bounce w w₁) (h' : Apart .pause w₁ w₂) (hkeyed : w.cluster.Keyed) :
    Ledger s w [] w₂ := by
  refine ⟨h'.keyed (h.keyed hkeyed), h'.inUse.trans h.inUse, fun r _ => ?_, fun r => ?_, [], ?_, ?_⟩
  · exact (h'.requests (by decide) r).trans (h.requests (by decide) r)
  · exact (h'.records _ r (by decide)).trans (h.records _ r (by decide))
  · refine ⟨List.forall_mem_nil _, List.nodup_nil, ?_, ?_, ?_, List.forall_mem_nil _⟩
    · exact (h'.cleanups.trans h.cleanups).trans (List.append_nil _).symm
    · exact (h'.bounces.trans h.bounces).trans (List.append_nil _).symm
    · exact (h'.saved.trans h.saved).trans (List.append_nil _).symm
  · exact List.forall_mem_nil _

/-- A visit that begins no bounce. -/
theorem visited (h : Ledger s w done w₁) : Ledger s w (done ++ [(a, failed)]) w₁ := by
  obtain ⟨cs, hcs, horigin⟩ := h.cascades
  refine ⟨h.keyed, h.inUse, fun r hr => ?_, h.later, cs, hcs, fun c hc => ?_⟩
  · exact h.requests r fun v hv => hr v (List.mem_append_left _ hv)
  · obtain ⟨failed', hmem, hend⟩ := horigin c hc
    exact ⟨failed', List.mem_append_left _ hmem, hend⟩

/-- A revert of a due scale whose request was not visited before. -/
theorem reverted (h : Ledger s w done w₁) (hstored : w.store.action? .scale a.requestId = some a)
    (hdue : s.isDue a = true) (hnew : ∀ v ∈ done, v.1.requestId ≠ a.requestId)
    {entry : Request.Entry} (hget : w₁.cluster.requests.get? a.requestId = some entry)
    {message : String}
    (hfailed : failed = true ↔ ∃ why, answer (revert s a entry message).run w₁ = .error why) :
    Ledger s w (done ++ [(a, failed)]) (after (revert s a entry message).run w₁) := by
  have hid : entry.request.id = a.requestId := h.keyed _ _ hget
  obtain ⟨cs, hcs, horigin⟩ := h.cascades
  have horigin' : ∀ c ∈ cs, ∃ failed', (c.scale, failed') ∈ done ++ [(a, failed)] ∧
      (c.stage = .stored ∨ failed' = true) := by
    intro c hc
    obtain ⟨failed', hmem, hend⟩ := horigin c hc
    exact ⟨failed', List.mem_append_left _ hmem, hend⟩
  have hinUse : (after (revert s a entry message).run w₁).cluster.inUseDeploys =
      w₁.cluster.inUseDeploys := by
    rcases revert_stores (s := s) a entry message w₁ with hun | ⟨-, hst⟩
    · exact hun.inUse
    · exact hst.inUse
  have hskip : Kind.skipHealthchecks ≠ .bounce := by decide
  have hlater := (revertFrame_records (s := s) hskip a entry).revert message w₁
  refine ⟨(revertFrame_keyed a entry).revert message w₁ h.keyed, hinUse.trans h.inUse, ?_,
    fun r => (hlater r).trans (h.later r), ?_⟩
  · -- the revert leaves the entries of other requests
    intro r hr
    have hother : a.requestId ≠ r := hr (a, failed) (List.mem_append_right _ List.mem_cons_self)
    rw [((revertFrame_agree hid hother).revert message w₁).requests]
    exact h.requests r fun v hv => hr v (List.mem_append_left _ hv)
  · have hpresent : (w.cluster.requests.get? a.requestId).map (·.request) = some entry.request := by
      rw [← h.requests a.requestId hnew, hget]
      rfl
    rcases revert_bounces (s := s) a entry message w₁ with
      hnothing | ⟨haccepted, hbounces, hnothing | ⟨c, hscale, hold, hdeploy, hminted, hadds, hend⟩⟩
    · exact ⟨cs, hcs.nothing hnothing, horigin'⟩
    · exact ⟨cs, hcs.nothing hnothing, horigin'⟩
    · rw [h.inUse, hid, ← hscale] at hdeploy
      have hfollows : c.Follows s w := by
        subst hscale
        exact ⟨hstored, hdue, haccepted, hold ▸ hpresent, hold ▸ hid, hold ▸ hbounces, hdeploy,
          hminted⟩
      have hfresh : ∀ c' ∈ cs, c'.scale.requestId ≠ c.scale.requestId := by
        intro c' hc'
        obtain ⟨failed', hmem, -⟩ := horigin c' hc'
        rw [hscale]
        exact hnew _ hmem
      refine ⟨cs ++ [c], hcs.concat hfollows hfresh hadds, fun c' hc' => ?_⟩
      rcases List.mem_append.mp hc' with hc' | hc'
      · exact horigin' c' hc'
      · rw [List.mem_singleton.mp hc', hscale]
        refine ⟨failed, List.mem_append_right _ List.mem_cons_self, ?_⟩
        exact hend.imp_right hfailed.mpr

/-- Passing one visit on. -/
theorem next (h : Ledger s w done w₁) (hstored : w.store.action? .scale a.requestId = some a)
    (hnew : ∀ v ∈ done, v.1.requestId ≠ a.requestId) (hvisited : Visited s .scale a failed w₁ w₂) :
    Ledger s w (done ++ [(a, failed)]) w₂ := by
  cases hvisited with
  | still quiet => exact h.visited.apart (.of_quiet quiet)
  | dropped quiet => exact h.visited.apart ((Apart.removed w₁ _ _).trans (.of_quiet quiet))
  | @reverted _ w₀ _ entry message _ due present before outcome quiet =>
      rw [← before.cluster] at present
      have hreverted :=
        (h.apart (.of_quiet before)).reverted hstored due hnew present outcome
      rcases quiet with quiet | quiet
      · exact hreverted.apart (.of_quiet quiet)
      · exact hreverted.apart ((Apart.removed _ _ _).trans (.of_quiet quiet))

/-- The pass over the scales, from a world in which nothing was begun yet. -/
theorem passOf (h : Ledger s w [] w₁) (hst : w.store.WellKeyed)
    (hactions : w₁.store.actions .scale = w.store.actions .scale) :
    ∃ vs, vs.map (·.1) <+: w.store.actions .scale ∧
      Ledger s w vs (after (passOf s .scale) w₁) ∧
      (answer (Poll.passOf s .scale) w₁).failed = .ofNat (failures vs).length := by
  obtain ⟨vs, w₂, hlisted, hprefix, hvisits, -, hcount⟩ := passOf_visits (s := s) .scale w₁
  rw [hactions] at hprefix
  have hstart : Ledger s w [] w₂ := by
    rcases hlisted with quiet | quiet
    · exact h.apart (.of_quiet quiet)
    · exact (h.apart (.healed w₁ .scale)).apart (.of_quiet quiet)
  refine ⟨vs, hprefix, hvisits.induct (Ledger s w) hstart ?_ ?_, hcount⟩
  · intro done w₁ w₂ hdone quiet
    exact hdone.apart (.of_quiet quiet)
  · intro done a failed rest w₁ w₂ hvs hdone hvisited
    have hmem : a ∈ w.store.actions .scale := by
      refine hprefix.subset (List.mem_map.mpr ⟨(a, failed), ?_, rfl⟩)
      rw [hvs]
      exact List.mem_append_right _ List.mem_cons_self
    -- the actions of the kind are for different requests
    have hpairwise := (hst.actions_pairwise .scale).sublist hprefix.sublist
    rw [hvs, List.map_append, List.map_cons, List.pairwise_append] at hpairwise
    have hnew : ∀ v ∈ done, v.1.requestId ≠ a.requestId := fun v hv =>
      hpairwise.2.2 v.1 (List.mem_map.mpr ⟨v, hv, rfl⟩) a List.mem_cons_self
    exact hdone.next (hst.of_mem_actions hmem).2 hnew hvisited

end Ledger

/-! ## A poll -/

/-- A poll comes to the pass over the scales with no bounce begun and the scales as they were, and
the pass after it is over another kind. -/
theorem poll_scales (s : Conditions) (w : World) (hst : w.store.WellKeyed)
    (hkeyed : w.cluster.Keyed) :
    ∃ w₁, Ledger s w [] w₁ ∧
      (∀ r, w₁.store.get? (Store.key .scale r) = w.store.get? (Store.key .scale r)) ∧
      after (poll s) w = after (passOf s .skipHealthchecks) (after (passOf s .scale) w₁) ∧
      (answer (poll s) w).kind? .scale = some (answer (passOf s .scale) w₁) := by
  have hbounce : Apart .bounce w (after (passOf s .bounce) w) :=
    .passOf (by decide) fun a ha => (hst.of_mem_actions ha).1
  generalize hw₁ : after (passOf s .bounce) w = w₁ at hbounce
  have hpause : Apart .pause w₁ (after (passOf s .pause) w₁) := by
    refine .passOf (by decide) fun a ha => ?_
    rw [Store.actions_congr fun r => hbounce.records .pause r (by decide)] at ha
    exact (hst.of_mem_actions ha).1
  generalize hw₂ : after (passOf s .pause) w₁ = w₂ at hpause
  refine ⟨w₂, .start hbounce hpause hkeyed, fun r => ?_, ?_, ?_⟩
  · exact (hpause.records .scale r (by decide)).trans (hbounce.records .scale r (by decide))
  · rw [← hw₂, ← hw₁]
    rfl
  · -- the tallies of the kinds before are of other kinds
    obtain ⟨-, -, -, -, -, hbounceKind, -⟩ := passOf_visits (s := s) .bounce w
    obtain ⟨-, -, -, -, -, hpauseKind, -⟩ := passOf_visits (s := s) .pause w₁
    obtain ⟨-, -, -, -, -, hscaleKind, -⟩ := passOf_visits (s := s) .scale w₂
    have hkinds : (answer (poll s) w).kinds = [answer (passOf s .bounce) w,
        answer (passOf s .pause) w₁, answer (passOf s .scale) w₂,
        answer (passOf s .skipHealthchecks) (after (passOf s .scale) w₂)] := by
      rw [← hw₂, ← hw₁]
      rfl
    rw [Report.kind?, hkinds, List.find?_cons_of_neg (by simp [hbounceKind]),
      List.find?_cons_of_neg (by simp [hpauseKind]), List.find?_cons_of_pos (by simp [hscaleKind])]

/-- Whatever fails, the bounces that a poll begins are those after scales that it visits. -/
theorem poll_cascaded (s : Conditions) (w : World) (hst : w.store.WellKeyed)
    (hkeyed : w.cluster.Keyed) :
    ∃ (cs : List Cascade) (vs : List (Action × Bool)) (t : Tally),
      Cascaded s w cs (after (poll s) w) ∧
      (answer (poll s) w).kind? .scale = some t ∧ t.failed = .ofNat (failures vs).length ∧
      vs.map (·.1) <+: w.store.actions .scale ∧
      ∀ c ∈ cs, ∃ failed, (c.scale, failed) ∈ vs ∧ (c.stage = .stored ∨ failed = true) := by
  obtain ⟨w₁, hstart, hscales, hpoll, htally⟩ := poll_scales s w hst hkeyed
  obtain ⟨vs, hprefix, hledger, hcount⟩ := hstart.passOf hst (Store.actions_congr hscales)
  obtain ⟨cs, hcascaded, horigin⟩ := hledger.cascades
  have hskip : Apart .skipHealthchecks (after (passOf s .scale) w₁)
      (after (passOf s .skipHealthchecks) (after (passOf s .scale) w₁)) := by
    refine .passOf (by decide) fun a ha => ?_
    rw [Store.actions_congr hledger.later] at ha
    exact (hst.of_mem_actions ha).1
  refine ⟨cs, vs, answer (passOf s .scale) w₁, ?_, htally, hcount, hprefix, horigin⟩
  rw [hpoll]
  exact hcascaded.apart hskip (by decide)

/-- **CORRELATION**: whatever fails, the cleanups, the entries on bounces and the actions that a
poll adds are those of bounces after due scales, at most one for each; a bounce that was stored has
its record at the end, and the others belong to reverts that failed and are counted so. -/
theorem poll_cascades (s : Conditions) (w : World) (hst : w.store.WellKeyed)
    (hkeyed : w.cluster.Keyed) :
    ∃ (cs : List Cascade) (failed : List Action) (t : Tally),
      Cascaded s w cs (after (poll s) w) ∧
      (answer (poll s) w).kind? .scale = some t ∧ t.failed = .ofNat failed.length ∧ failed.Nodup ∧
      (∀ a ∈ failed, w.store.action? .scale a.requestId = some a) ∧
      ∀ c ∈ cs, c.stage = .stored ∨ c.scale ∈ failed := by
  obtain ⟨cs, vs, t, hcascaded, htally, hcount, hprefix, horigin⟩ := poll_cascaded s w hst hkeyed
  have hfailures : (failures vs).Sublist (w.store.actions .scale) :=
    (List.filter_sublist.map _).trans hprefix.sublist
  refine ⟨cs, failures vs, t, hcascaded, htally, hcount, ?_, ?_, ?_⟩
  · refine ((hst.actions_pairwise .scale).sublist hfailures).imp ?_
    rintro a _ hne rfl
    exact hne rfl
  · exact fun a ha => (hst.of_mem_actions (hfailures.subset ha)).2
  · intro c hc
    obtain ⟨failed, hmem, hend⟩ := horigin c hc
    refine hend.imp_right fun hfailed => ?_
    exact List.mem_map.mpr ⟨(c.scale, failed), List.mem_filter.mpr ⟨hmem, hfailed⟩, rfl⟩

/-- Conditions in which no action can be stored. -/
def Conditions.unsaving (now : Int64) : Conditions :=
  { Conditions.calm now with
    faults := fun _ c => match c.operation with
      | .saveAction _ => some (.fails .files)
      | _ => none }

/-- A bounce that could not be stored was ordered and recorded, and its scale counts as failed. -/
theorem poll_cascades_scaledWeb :
    ∃ c : Cascade,
      Cascaded (.unsaving 10000) scaledWeb [c] (after (poll (.unsaving 10000)) scaledWeb) ∧
      c.stage = .bounced ∧
      ∃ t, (answer (poll (.unsaving 10000)) scaledWeb).kind? .scale = some t ∧ t.failed = 1 := by
  obtain ⟨cs, failed, t, hcs, htally, -⟩ :=
    poll_cascades (.unsaving 10000) scaledWeb scaledWeb_wellKeyed scaledWeb_keyed
  have hcleanups :
      (after (poll (.unsaving 10000)) scaledWeb).cluster.requestCleanups.length = 1 := by
    decide +kernel
  have hbounces : (after (poll (.unsaving 10000)) scaledWeb).bounces.length = 1 := by
    decide +kernel
  have hsaved : (after (poll (.unsaving 10000)) scaledWeb).saved = [] := by
    decide +kernel
  have hfailed : ((answer (poll (.unsaving 10000)) scaledWeb).kind? .scale).map (·.failed) =
      some 1 := by
    decide +kernel
  obtain ⟨c, rfl⟩ : ∃ c, cs = [c] := by
    rw [hcs.cleanups] at hcleanups
    exact List.length_eq_one_iff.mp (by simpa [scaledWeb] using hcleanups)
  refine ⟨c, hcs, ?_, t, htally, ?_⟩
  · rw [hcs.bounces] at hbounces
    rw [hcs.saved] at hsaved
    cases hstage : c.stage with
    | ordered => simp [Cascade.records, hstage, World.bounces, scaledWeb] at hbounces
    | bounced => rfl
    | stored => simp [Cascade.actions, hstage] at hsaved
  · rw [htally] at hfailed
    exact Option.some.inj hfailed

end Lapse.Poll
