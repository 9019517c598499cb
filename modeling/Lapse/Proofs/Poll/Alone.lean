import Lapse.Proofs.Poll.Share
import Lapse.Proofs.Poll.Stored

/-!
# The visits to one request

A poll deals with each kind in turn, and a kind has one record for a request at most.  So, as far as
one request is concerned, dealing with a kind is listing it and visiting that record; all that
comes before and after the visit happens to other requests.
-/

namespace Lapse.Poll

variable {s : Conditions} {st : Store} {kind : Kind} {r : String} {w w₁ w₂ w' : World}

/-! ## Elsewhere -/

/-- What happened between two worlds happened to other requests than this one. -/
structure Elsewhere (r : String) (w w' : World) : Prop extends Agree r w w' where
  minted : w.minted ≤ w'.minted

namespace Elsewhere

theorem refl (w : World) : Elsewhere r w w := ⟨.refl w, Nat.le_refl _⟩

theorem trans (h : Elsewhere r w w₁) (h' : Elsewhere r w₁ w₂) : Elsewhere r w w₂ :=
  ⟨h.toAgree.trans h'.toAgree, h.minted.trans h'.minted⟩

theorem of_quiet (h : Quiet w w') : Elsewhere r w w' := ⟨.of_quiet h, Nat.le_of_eq h.minted.symm⟩

end Elsewhere

/-- No cleanup ordered for a request carries an action id that is still to be made. -/
def Conditions.Fresh (s : Conditions) (r : String) (w : World) : Prop :=
  ∀ cleanup ∈ w.cluster.requestCleanups, cleanup.requestId = r →
    ∀ n ≥ w.minted, cleanup.actionId ≠ some (s.freshId n)

theorem Conditions.Fresh.healed (hfresh : s.Fresh r w) (kind : Kind) :
    s.Fresh r (w.healed kind) := hfresh

theorem Conditions.Fresh.elsewhere (hfresh : s.Fresh r w) (h : Elsewhere r w w') :
    s.Fresh r w' := by
  intro cleanup hmem hr n hn
  have hown : cleanup ∈ (w'.cluster.only r).requestCleanups :=
    List.mem_filter.mpr ⟨hmem, decide_eq_true hr⟩
  rw [h.cluster] at hown
  exact hfresh cleanup (List.mem_filter.mp hown).1 hr n (h.minted.trans hn)

/-- The next id is new to the share of the request. -/
theorem Conditions.Fresh.next (hfresh : s.Fresh r w) :
    ∀ old ∈ (w.cluster.only r).requestCleanups, old.actionId ≠ some (s.freshId w.minted) := by
  intro old hmem
  obtain ⟨hold, hr⟩ := List.mem_filter.mp hmem
  exact hfresh old hold (of_decide_eq_true hr) w.minted (Nat.le_refl _)

/-- Reverts free no action ids. -/
theorem revertFrame_minted (a : Action) (entry : Request.Entry) :
    RevertFrame s a entry fun w w' => w.minted ≤ w'.minted where
  refl w := Nat.le_refl w.minted
  trans h h' := h.trans h'
  noted w _ _ _ := Nat.le_refl w.minted
  minted _ _ h := h
  logged w _ := Nat.le_refl w.minted
  cleanupRemoved w _ _ := Nat.le_refl w.minted
  updatesRemoved w _ _ _ _ := Nat.le_refl w.minted
  pendingRemoved w _ _ := Nat.le_refl w.minted
  enqueued w _ _ := Nat.le_refl w.minted
  cleanupCreated w _ _ _ := Nat.le_refl w.minted
  bounced w _ := Nat.le_refl w.minted
  stored w _ _ _ _ _ := Nat.le_refl w.minted
  updated w _ _ _ _ _ _ _ := Nat.le_refl w.minted
  unpaused w _ _ _ := Nat.le_refl w.minted
  notified w _ _ _ := Nat.le_refl w.minted

theorem Happens.minted {ev : Event} (h : Happens s ev w w') : w.minted ≤ w'.minted := by
  cases h with
  | listed quiet => exact Nat.le_of_eq quiet.minted.symm
  | waiting due quiet => exact Nat.le_of_eq quiet.minted.symm
  | malformed due quiet => exact Nat.le_of_eq quiet.minted.symm
  | missing due absent quiet => exact Nat.le_of_eq quiet.minted.symm
  | @reverted _ a _ w₁ _ lifetime entry due lives present before quiet =>
      have hrevert := (revertFrame_minted (s := s) a entry).revert (a.expiryMessage lifetime) w₁
      rw [quiet.minted, ← before.minted]
      exact hrevert

/-! ## One kind -/

theorem Run.keyed {es : List Event} (h : Run s es w w') (hkeyed : w.cluster.Keyed) :
    w'.cluster.Keyed := by
  induction h with
  | done => exact hkeyed
  | next first _ ih => exact ih (first.keyed hkeyed)

/-- Visits to actions for other requests. -/
theorem Run.elsewhere {actions : List Action} (h : Run s (actions.map (.visit kind)) w w')
    (hkeyed : w.cluster.Keyed) (hr : ∀ a ∈ actions, a.requestId ≠ r) : Elsewhere r w w' := by
  induction actions generalizing w with
  | nil =>
      cases h with
      | done => exact .refl w'
  | cons a rest ih =>
      cases h with
      | next first others =>
          have hfirst := first.agree hkeyed (hr a List.mem_cons_self)
          have hrest := ih others (first.keyed hkeyed) fun b hb => hr b (List.mem_cons_of_mem a hb)
          exact .trans ⟨hfirst, first.minted⟩ hrest

/-- **ALONE**: as far as a request is concerned, dealing with a kind is listing it, and visiting the
action that is stored under their key, if there is one. -/
theorem Run.alone (h : Run s (scheduleOf st [kind]) w w') (hst : st.WellKeyed)
    (hkeyed : w.cluster.Keyed) (r : String) :
    st.action? kind r = none ∧ Elsewhere r (w.healed kind) w' ∨
      ∃ a u u', st.action? kind r = some a ∧ a.requestId = r ∧ u.cluster.Keyed ∧
        Elsewhere r (w.healed kind) u ∧ Happens s (.visit kind a) u u' ∧ Elsewhere r u' w' := by
  rw [scheduleOf, List.flatMap_singleton] at h
  cases h with
  | @next _ _ _ w₁ _ first others =>
      have hkeyed₁ : w₁.cluster.Keyed := first.keyed hkeyed
      have hlisted : Elsewhere r (w.healed kind) w₁ := by
        cases first with
        | listed quiet => exact .of_quiet quiet
      cases haction : st.action? kind r with
      | none =>
          refine .inl ⟨rfl, hlisted.trans (others.elsewhere hkeyed₁ fun a ha hr => ?_)⟩
          rw [← hr, (hst.of_mem_actions ha).2] at haction
          cases haction
      | some a =>
          obtain ⟨-, har⟩ := hst.of_action? haction
          obtain ⟨before, rest, hactions⟩ :=
            List.append_of_mem (Store.mem_actions_iff.mpr ⟨r, haction⟩)
          -- the actions before and after it are for other requests
          have hpairwise := hst.actions_pairwise kind
          rw [hactions, List.pairwise_append, List.pairwise_cons] at hpairwise
          obtain ⟨-, ⟨hrest, -⟩, hbefore⟩ := hpairwise
          rw [hactions, List.map_append] at others
          obtain ⟨u, hrun, hothers⟩ := others.split
          cases hothers with
          | @next _ _ _ u' _ hvisit hothers =>
              have hkeyed' : u.cluster.Keyed := hrun.keyed hkeyed₁
              have hu := hrun.elsewhere (r := r) hkeyed₁ fun b hb hr =>
                hbefore b hb a List.mem_cons_self (hr.trans har.symm)
              have hw' := hothers.elsewhere (r := r) (hvisit.keyed hkeyed') fun b hb hr =>
                hrest b hb (har.trans hr.symm)
              exact .inr ⟨a, u, u', rfl, har, hkeyed', hlisted.trans hu, hvisit, hw'⟩

/-- A poll deals with the kinds one after another, each as the first store has it. -/
theorem poll_kinds (hs : s.SparesPoll) (w : World) :
    ∃ w₁ w₂ w₃, Run s (scheduleOf w.store [.bounce]) w w₁ ∧
      Run s (scheduleOf w.store [.pause]) w₁ w₂ ∧ Run s (scheduleOf w.store [.scale]) w₂ w₃ ∧
      Run s (scheduleOf w.store [.skipHealthchecks]) w₃ (after (poll s) w) := by
  have hcons : ∀ kind kinds, scheduleOf w.store (kind :: kinds) =
      scheduleOf w.store [kind] ++ scheduleOf w.store kinds := by
    intro kind kinds
    rw [scheduleOf, scheduleOf, scheduleOf, List.flatMap_cons, List.flatMap_singleton]
  have hrun := (poll_run hs w).1
  rw [schedule, Kind.all, hcons] at hrun
  obtain ⟨w₁, hbounce, hrun⟩ := hrun.split
  rw [hcons] at hrun
  obtain ⟨w₂, hpause, hrun⟩ := hrun.split
  rw [hcons] at hrun
  obtain ⟨w₃, hscale, hskip⟩ := hrun.split
  exact ⟨w₁, w₂, w₃, hbounce, hpause, hscale, hskip⟩

end Lapse.Poll
