import Lapse.Proofs.Poll.Alone
import Lapse.Proofs.Poll.Course

/-!
# What is apart from the scales

Bounces after scales depend on the requests, the deploys in use and the cleanups that were ordered,
and leave cleanups, entries in the history and records.  Dealing with another kind than the scales
leaves all of that as it is, under any faults, apart from the records of that kind and from the
flags that it restores.
-/

namespace Lapse.Poll

variable {s : Conditions} {kind : Kind} {w w₁ w₂ w' : World}

/-- Nothing changed that bounces after scales depend on or leave, apart from the records of a kind
and the flags for health checks that are undone with it. -/
structure Apart (kind : Kind) (w w' : World) : Prop where
  cleanups : w'.cluster.requestCleanups = w.cluster.requestCleanups
  bounces : w'.bounces = w.bounces
  saved : w'.saved = w.saved
  inUse : w'.cluster.inUseDeploys = w.cluster.inUseDeploys
  records : ∀ kind' r, kind' ≠ kind →
    w'.store.get? (Store.key kind' r) = w.store.get? (Store.key kind' r)
  keyed : w.cluster.Keyed → w'.cluster.Keyed
  requests : kind ≠ .skipHealthchecks → ∀ r,
    (w'.cluster.requests.get? r).map (·.request) = (w.cluster.requests.get? r).map (·.request)
  minted : w.minted ≤ w'.minted

namespace Apart

theorem trans (h : Apart kind w w₁) (h' : Apart kind w₁ w₂) : Apart kind w w₂ where
  cleanups := h'.cleanups.trans h.cleanups
  bounces := h'.bounces.trans h.bounces
  saved := h'.saved.trans h.saved
  inUse := h'.inUse.trans h.inUse
  records kind' r hk := (h'.records kind' r hk).trans (h.records kind' r hk)
  keyed hkeyed := h'.keyed (h.keyed hkeyed)
  requests hk r := (h'.requests hk r).trans (h.requests hk r)
  minted := h.minted.trans h'.minted

theorem of_quiet (h : Quiet w w') : Apart kind w w' where
  cleanups := congrArg _ h.cluster
  bounces := by rw [World.bounces, World.bounces, h.cluster]
  saved := h.saved
  inUse := congrArg _ h.cluster
  records _ _ _ := by rw [h.store]
  keyed hkeyed := h.cluster ▸ hkeyed
  requests _ r := by rw [h.cluster]
  minted := Nat.le_of_eq h.minted.symm

theorem removed (w : World) (kind : Kind) (r : String) : Apart kind w (w.removed kind r) where
  cleanups := rfl
  bounces := rfl
  saved := rfl
  inUse := rfl
  records _ r' hk := by
    show (w.store.remove kind r).get? _ = _
    rw [Store.get?_remove, if_neg fun h => hk (Store.key_inj.mp h).1]
  keyed h := h
  requests _ _ := rfl
  minted := Nat.le_refl w.minted

theorem healed (w : World) (kind : Kind) : Apart kind w (w.healed kind) where
  cleanups := rfl
  bounces := rfl
  saved := rfl
  inUse := rfl
  records _ r hk := Store.get?_healed_key w.store hk r
  keyed h := h
  requests _ _ := rfl
  minted := Nat.le_refl w.minted

/-- A revert of another kind than a scale. -/
theorem revert {a : Action} (h : a.kind ≠ .scale) (entry : Request.Entry) (message : String)
    (w : World) : Apart a.kind w (after (revert s a entry message).run w) := by
  have hadds : Adds [] [] [] w (after (Poll.revert s a entry message).run w) := by
    rcases revert_bounces (s := s) a entry message w with hadds | ⟨⟨n, hundo, -⟩, -⟩
    · exact hadds
    · exact absurd (show a.undo.kind = .scale by rw [hundo]; rfl) h
  refine ⟨?_, ?_, ?_, hadds.inUse, ?_, (revertFrame_keyed a entry).revert message w, ?_,
    (revertFrame_minted a entry).revert message w⟩
  · rw [hadds.cleanups, List.append_nil]
  · rw [hadds.bounces, List.append_nil]
  · rw [hadds.saved, List.append_nil]
  · intro kind' r _
    rw [hadds.store]
    rfl
  · -- ending a pause keeps the request of its entry, and calling off a bounce the entries
    intro hskip r
    rw [Poll.revert]
    cases hundo : a.undo with
    | bounce deployId => rw [(callOffFrame_requests a).revertBounce deployId message w]
    | scale n => exact absurd (show a.undo.kind = .scale by rw [hundo]; rfl) h
    | skipHealthchecks flag =>
        exact absurd (show a.undo.kind = .skipHealthchecks by rw [hundo]; rfl) hskip
    | pause =>
        have hF := Frame.ofCluster fun c : Cluster =>
          (c.requests.get? r).map (·.request)
        refine hF.revertPause (fun w c hc => ?_) w
        obtain ⟨old, more, hget, -, rfl⟩ := Cluster.unpause_eq_ok hc
        show ((w.cluster.requests.insert _ _).get? r).map _ = _
        rw [OrderedMap.get?_insert]
        by_cases hr : r = entry.request.id
        · rw [if_pos hr, hr, hget]
          rfl
        · rw [if_neg hr]

theorem visited {a : Action} {failed : Bool} (h : Visited s kind a failed w w') (ha : a.kind = kind)
    (hscale : kind ≠ .scale) : Apart kind w w' := by
  cases h with
  | still quiet => exact .of_quiet quiet
  | dropped quiet => exact (Apart.removed w kind _).trans (.of_quiet quiet)
  | @reverted _ w₁ _ entry message _ due present before outcome quiet =>
      subst ha
      have hrevert := Apart.revert (s := s) hscale entry message w₁
      refine (Apart.of_quiet before).trans (hrevert.trans ?_)
      rcases quiet with quiet | quiet
      · exact .of_quiet quiet
      · exact (Apart.removed _ _ _).trans (.of_quiet quiet)

/-- A pass over another kind than the scales. -/
theorem passOf (hscale : kind ≠ .scale) (h : ∀ a ∈ w.store.actions kind, a.kind = kind) :
    Apart kind w (after (passOf s kind) w) := by
  obtain ⟨vs, w₁, hlisted, hprefix, hvisits, -, -⟩ := passOf_visits (s := s) kind w
  have hstart : Apart kind w w₁ := by
    rcases hlisted with quiet | quiet
    · exact .of_quiet quiet
    · exact (Apart.healed w kind).trans (.of_quiet quiet)
  refine hvisits.induct (fun _ w' => Apart kind w w') hstart ?_ ?_
  · intro done w₁ w₂ hdone quiet
    exact hdone.trans (.of_quiet quiet)
  · intro done a failed rest w₁ w₂ hvs hdone hvisited
    refine hdone.trans (visited hvisited (h a ?_) hscale)
    refine hprefix.subset (List.mem_map.mpr ⟨(a, failed), ?_, rfl⟩)
    rw [hvs]
    exact List.mem_append_right _ List.mem_cons_self

end Apart

/-- Another kind than the scales makes no names and orders no cleanups of requests. -/
theorem Conditions.Fresh.apart {r : String} (hfresh : s.Fresh r w) (h : Apart kind w w') :
    s.Fresh r w' := by
  intro cleanup hmem hr n hn
  rw [h.cleanups] at hmem
  exact hfresh cleanup hmem hr n (h.minted.trans hn)

/-! ## Without faults -/

/-- Every event of the schedule is one of the ways in which a visit passes under any faults. -/
theorem Happens.visited {a : Action} (h : Happens s (.visit kind a) w w') :
    ∃ failed, Visited s kind a failed w w' := by
  cases h with
  | waiting due quiet => exact ⟨false, .still quiet⟩
  | malformed due quiet => exact ⟨false, .dropped quiet⟩
  | missing due absent quiet => exact ⟨false, .dropped quiet⟩
  | @reverted _ _ _ w₁ _ lifetime entry due lives present before quiet =>
      have hdue : s.isDue a = true := by rw [Conditions.isDue, due]
      cases hanswer : answer (revert s a entry (a.expiryMessage lifetime)).run w₁ with
      | ok outcome =>
          refine ⟨false, .reverted hdue present before ⟨?_, ?_⟩ (.inr quiet)⟩
          · rintro ⟨⟩
          · rintro ⟨why, hwhy⟩
            cases hanswer.symm.trans hwhy
      | error why =>
          exact ⟨true, .reverted hdue present before ⟨fun _ => ⟨why, hanswer⟩, fun _ => rfl⟩
            (.inr quiet)⟩

/-- What a poll does for another kind than the scales. -/
theorem Run.apart {st : Store} (h : Run s (scheduleOf st [kind]) w w') (hst : st.WellKeyed)
    (hscale : kind ≠ .scale) : Apart kind w w' := by
  refine h.induct (fun _ w' => Apart kind w w') (Apart.of_quiet (Quiet.refl w)) ?_
  intro done ev rest w₁ w₂ hes hdone hev
  have hmem : ev ∈ scheduleOf st [kind] := by
    rw [hes]
    exact List.mem_append_right _ List.mem_cons_self
  rw [scheduleOf, List.flatMap_singleton] at hmem
  rcases List.mem_cons.mp hmem with rfl | hvisit
  · cases hev with
    | listed quiet => exact hdone.trans ((Apart.healed w₁ kind).trans (.of_quiet quiet))
  · obtain ⟨a, ha, rfl⟩ := List.mem_map.mp hvisit
    obtain ⟨failed, hvisited⟩ := hev.visited
    exact hdone.trans (.visited hvisited (hst.of_mem_actions ha).1 hscale)

end Lapse.Poll
