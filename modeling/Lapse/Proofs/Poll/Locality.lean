import Lapse.Proofs.Poll.Alike
import Lapse.Proofs.Poll.Apart
import Lapse.Proofs.Poll.Repeat

/-!
# Requests do not interfere

Two polls are run at the same instant, on two worlds that have the same share of one request.  What
they hold of other requests may differ, and so may the faults that the reverts for those meet.  As
the kinds are dealt with one after another, the shares stay equal, then equal up to the stamps of
the two wall clocks, and from the scales on up to the name of the bounce that follows a scale.
-/

namespace Lapse.Poll

variable {s s₁ s₂ : Conditions} {st₁ st₂ : Store} {kind : Kind} {a : Action} {r : String}
  {w w' w₁ w₂ w₁' w₂' : World} {P Q : World → World → Prop}

/-! ## Two visits -/

theorem Quiet.still (h : Quiet w w') : Still w w' := ⟨h.store, h.cluster, h.minted⟩

/-- How a visit passes is told by whether the action is due, and by its request. -/
theorem Happens.told (h : Happens s (.visit kind a) w w') :
    match a.isDue s.now s.config, w.cluster.requests.get? a.requestId with
    | .ok false, _ => Quiet w w'
    | .ok true, some entry => ∃ lifetime u, a.lifetime s.config = .ok lifetime ∧ Quiet w u ∧
        Quiet ((after (revert s a entry (a.expiryMessage lifetime)).run u).removed kind
          a.requestId) w'
    | _, _ => Quiet (w.removed kind a.requestId) w' := by
  cases h with
  | waiting due quiet =>
      rw [due]
      exact quiet
  | malformed due quiet =>
      rw [due]
      exact quiet
  | missing due absent quiet =>
      rw [due, absent]
      exact quiet
  | @reverted _ _ _ u _ lifetime entry due lives present before quiet =>
      rw [due, present]
      exact ⟨lifetime, u, lives, before, quiet⟩

section Lockstep

variable (hnow : s₁.now = s₂.now) (hconfig : s₁.config = s₂.config)

include hnow hconfig

/-- Two visits to the same action pass in the same way, if its reverts are in lockstep. -/
theorem Happens.lockstep (h₁ : Happens s₁ (.visit kind a) w₁ w₁')
    (h₂ : Happens s₂ (.visit kind a) w₂ w₂') (hP : Blind P) (hQ : Blind Q)
    (himp : ∀ w₁ w₂, P w₁ w₂ → Q w₁ w₂)
    (hremoved : ∀ w₁ w₂, Q w₁ w₂ → Q (w₁.removed kind a.requestId) (w₂.removed kind a.requestId))
    (hget : w₁.cluster.requests.get? a.requestId = w₂.cluster.requests.get? a.requestId)
    (hrevert : ∀ entry message, w₁.cluster.requests.get? a.requestId = some entry →
      Lockstep P Q (revert s₁ a entry message) (revert s₂ a entry message))
    (h : P w₁ w₂) : Q w₁' w₂' := by
  have htold₁ := h₁.told
  have htold₂ := h₂.told
  rw [← hnow, ← hconfig, ← hget] at htold₂
  have hdropped : Quiet (w₁.removed kind a.requestId) w₁' →
      Quiet (w₂.removed kind a.requestId) w₂' → Q w₁' w₂' :=
    fun q₁ q₂ => hQ (hremoved w₁ w₂ (himp w₁ w₂ h)) q₁.still q₂.still
  cases hdue : a.isDue s₁.now s₁.config with
  | error why =>
      rw [hdue] at htold₁ htold₂
      exact hdropped htold₁ htold₂
  | ok due =>
      rw [hdue] at htold₁ htold₂
      cases due with
      | false => exact hQ (himp w₁ w₂ h) htold₁.still htold₂.still
      | true =>
          cases hentry : w₁.cluster.requests.get? a.requestId with
          | none =>
              rw [hentry] at htold₁ htold₂
              exact hdropped htold₁ htold₂
          | some entry =>
              rw [hentry] at htold₁ htold₂
              obtain ⟨lifetime, u₁, hlives₁, hbefore₁, hquiet₁⟩ := htold₁
              obtain ⟨lifetime', u₂, hlives₂, hbefore₂, hquiet₂⟩ := htold₂
              obtain rfl : lifetime = lifetime' := Except.ok.inj (hlives₁.symm.trans hlives₂)
              have hreverted := (hrevert entry (a.expiryMessage lifetime) hentry u₁ u₂
                (hP h hbefore₁.still hbefore₂.still)).2
              exact hQ (hremoved _ _ hreverted) hquiet₁.still hquiet₂.still

/-- **LOCKSTEP**: dealing with a kind in two worlds keeps a relation of the shares of a request, if
reverting the action stored under their key does. -/
theorem Run.lockstep (h₁ : Run s₁ (scheduleOf st₁ [kind]) w₁ w₁')
    (h₂ : Run s₂ (scheduleOf st₂ [kind]) w₂ w₂') (hst₁ : st₁.WellKeyed) (hst₂ : st₂.WellKeyed)
    (hkeyed₁ : w₁.cluster.Keyed) (hkeyed₂ : w₂.cluster.Keyed)
    (haction : st₂.action? kind r = st₁.action? kind r) (hQ : Local r Q)
    (hhealed : Q (w₁.healed kind) (w₂.healed kind))
    (hremoved : ∀ u₁ u₂, Q u₁ u₂ → Q (u₁.removed kind r) (u₂.removed kind r))
    (hget : ∀ u₁ u₂, Q u₁ u₂ → u₁.cluster.requests.get? r = u₂.cluster.requests.get? r)
    (hrevert : ∀ a u₁ u₂, a.kind = kind → a.requestId = r → Elsewhere r (w₁.healed kind) u₁ →
      Elsewhere r (w₂.healed kind) u₂ → ∃ P, Blind P ∧ P u₁ u₂ ∧ (∀ v₁ v₂, P v₁ v₂ → Q v₁ v₂) ∧
        ∀ entry message, entry.request.id = r →
          Lockstep P Q (revert s₁ a entry message) (revert s₂ a entry message)) :
    Q w₁' w₂' := by
  rcases h₁.alone hst₁ hkeyed₁ r with ⟨hnone, hw₁⟩ |
    ⟨a, u₁, u₁', hsome, ha, hkeyed₁', hu₁, hvisit₁, hw₁⟩
  · rcases h₂.alone hst₂ hkeyed₂ r with ⟨-, hw₂⟩ | ⟨b, u₂, u₂', hsome₂, -⟩
    · exact hQ hhealed hw₁.toAgree hw₂.toAgree
    · exact nomatch hsome₂.symm.trans (haction.trans hnone)
  · rcases h₂.alone hst₂ hkeyed₂ r with ⟨hnone₂, -⟩ |
      ⟨b, u₂, u₂', hsome₂, -, hkeyed₂', hu₂, hvisit₂, hw₂⟩
    · exact nomatch hnone₂.symm.trans (haction.trans hsome)
    · obtain rfl : a = b := Option.some.inj (hsome.symm.trans (haction.symm.trans hsome₂))
      obtain ⟨P, hP, hstart, himp, hsteps⟩ :=
        hrevert a u₁ u₂ (hst₁.of_action? hsome).1 ha hu₁ hu₂
      have hu : Q u₁ u₂ := hQ hhealed hu₁.toAgree hu₂.toAgree
      subst ha
      have hu' := hvisit₁.lockstep hnow hconfig hvisit₂ hP hQ.blind himp hremoved (hget u₁ u₂ hu)
        (fun entry message hentry => hsteps entry message (hkeyed₁' _ entry hentry)) hstart
      exact hQ hu' hw₁.toAgree hw₂.toAgree

/-! ## The four kinds -/

section Kinds

variable (hs₁ : s₁.Favours r) (hs₂ : s₂.Favours r) (hst₁ : st₁.WellKeyed) (hst₂ : st₂.WellKeyed)
  (hkeyed₁ : w₁.cluster.Keyed) (hkeyed₂ : w₂.cluster.Keyed)

include hs₁ hs₂ hst₁ hst₂ hkeyed₁ hkeyed₂

/-- Calling off bounces leaves equal shares equal. -/
theorem Run.bounces_agree (h₁ : Run s₁ (scheduleOf st₁ [.bounce]) w₁ w₁')
    (h₂ : Run s₂ (scheduleOf st₂ [.bounce]) w₂ w₂')
    (haction : st₂.action? .bounce r = st₁.action? .bounce r) (h : Agree r w₁ w₂) :
    Agree r w₁' w₂' := by
  refine h₁.lockstep hnow hconfig h₂ hst₁ hst₂ hkeyed₁ hkeyed₂ haction .agree
    (h.healed .bounce) (fun u₁ u₂ hu => hu.removed .bounce r) (fun u₁ u₂ hu => hu.requests.symm) ?_
  intro a u₁ u₂ hkind ha hu₁ hu₂
  have hu : Agree r u₁ u₂ := Local.agree (h.healed .bounce) hu₁.toAgree hu₂.toAgree
  refine ⟨Agree r, Local.agree.blind, hu, fun _ _ h => h, fun entry message _ => ?_⟩
  obtain ⟨deployId, hundo⟩ := Action.kind_eq_bounce_iff.mp hkind
  rw [revert, revert, hundo]
  exact revertBounce_lockstep hs₁ hs₂ ha hnow deployId message

/-- Ending pauses and undoing flags tells the shares apart by stamps only. -/
theorem Run.alike (h₁ : Run s₁ (scheduleOf st₁ [kind]) w₁ w₁')
    (h₂ : Run s₂ (scheduleOf st₂ [kind]) w₂ w₂') (hbounce : kind ≠ .bounce) (hscale : kind ≠ .scale)
    (haction : st₂.action? kind r = st₁.action? kind r) {id₁ id₂ : String}
    (h : Alike s₁ s₂ id₁ id₂ r w₁ w₂) : Alike s₁ s₂ id₁ id₂ r w₁' w₂' := by
  refine h₁.lockstep hnow hconfig h₂ hst₁ hst₂ hkeyed₁ hkeyed₂ haction .alike
    (h.healed kind) (fun u₁ u₂ hu => hu.removed kind) (fun u₁ u₂ hu => hu.get?_requests) ?_
  intro a u₁ u₂ hkind ha hu₁ hu₂
  have hu := Local.alike (h.healed kind) hu₁.toAgree hu₂.toAgree
  refine ⟨_, Local.alike.blind, hu, fun _ _ h => h, fun entry message hid => ?_⟩
  unfold revert
  cases hundo : a.undo with
  | bounce deployId => exact absurd (hkind.symm.trans (congrArg Action.Undo.kind hundo)) hbounce
  | pause => exact revertPause_lockstep hs₁ hs₂ ha hid message
  | scale n => exact absurd (hkind.symm.trans (congrArg Action.Undo.kind hundo)) hscale
  | skipHealthchecks flag => exact revertSkipHealthchecks_lockstep hs₁ hs₂ ha hid flag message

/-- With the scales comes the name of the bounce that follows one. -/
theorem Run.scales_alike (h₁ : Run s₁ (scheduleOf st₁ [.scale]) w₁ w₁')
    (h₂ : Run s₂ (scheduleOf st₂ [.scale]) w₂ w₂')
    (haction : st₂.action? .scale r = st₁.action? .scale r) (hfresh₁ : s₁.Fresh r w₁)
    (hfresh₂ : s₂.Fresh r w₂) (h : ∀ id₁ id₂, Alike s₁ s₂ id₁ id₂ r w₁ w₂) :
    ∃ m₁ m₂, w₁.minted ≤ m₁ ∧ w₂.minted ≤ m₂ ∧
      Alike s₁ s₂ (s₁.freshId m₁) (s₂.freshId m₂) r w₁' w₂' := by
  refine h₁.lockstep hnow hconfig h₂ hst₁ hst₂ hkeyed₁ hkeyed₂ haction
    (Q := fun u₁ u₂ => ∃ m₁ m₂, w₁.minted ≤ m₁ ∧ w₂.minted ≤ m₂ ∧
      Alike s₁ s₂ (s₁.freshId m₁) (s₂.freshId m₂) r u₁ u₂) ?_ ?_ ?_ ?_ ?_
  · rintro u₁ u₂ u₁' u₂' ⟨m₁, m₂, hm₁, hm₂, hu⟩ hu₁ hu₂
    exact ⟨m₁, m₂, hm₁, hm₂, Local.alike hu hu₁ hu₂⟩
  · exact ⟨_, _, Nat.le_refl _, Nat.le_refl _, (h _ _).healed .scale⟩
  · rintro u₁ u₂ ⟨m₁, m₂, hm₁, hm₂, hu⟩
    exact ⟨m₁, m₂, hm₁, hm₂, hu.removed .scale⟩
  · rintro u₁ u₂ ⟨m₁, m₂, hm₁, hm₂, hu⟩
    exact hu.get?_requests
  · intro a u₁ u₂ hkind ha hu₁ hu₂
    have hm₁ : w₁.minted ≤ u₁.minted := hu₁.minted
    have hm₂ : w₂.minted ≤ u₂.minted := hu₂.minted
    -- the ids that are next at the visits are new to the request in both worlds
    have hready : Ready s₁ s₂ u₁.minted u₂.minted r u₁ u₂ :=
      ⟨Local.alike ((h _ _).healed .scale) hu₁.toAgree hu₂.toAgree, rfl, rfl,
        ((hfresh₁.healed .scale).elsewhere hu₁).next, ((hfresh₂.healed .scale).elsewhere hu₂).next⟩
    refine ⟨_, Ready.blind, hready, fun v₁ v₂ hv => ⟨_, _, hm₁, hm₂, hv.alike⟩, ?_⟩
    intro entry message hid
    obtain ⟨n, hundo⟩ := Action.kind_eq_scale_iff.mp hkind
    rw [revert, revert, hundo]
    exact (revertScale_lockstep hs₁ hs₂ hnow ha hid n message).mono
      fun v₁ v₂ hv => ⟨_, _, hm₁, hm₂, hv⟩

end Kinds

/-! ## Two polls -/

/-- **NON-INTERFERENCE**: from worlds that have the same share of a request, two polls of the same
instant and configuration leave shares of it that are equal up to the stamps of their wall clocks
and the name of one new bounce.  Neither what the worlds hold of other requests matters, nor which
calls of the reverts for those meet a fault. -/
theorem poll_alike (hs₁ : s₁.Favours r) (hs₂ : s₂.Favours r) (hst₁ : w₁.store.WellKeyed)
    (hst₂ : w₂.store.WellKeyed) (hkeyed₁ : w₁.cluster.Keyed) (hkeyed₂ : w₂.cluster.Keyed)
    (hfresh₁ : s₁.Fresh r w₁) (hfresh₂ : s₂.Fresh r w₂) (h : Agree r w₁ w₂) :
    ∃ m₁ m₂, w₁.minted ≤ m₁ ∧ w₂.minted ≤ m₂ ∧
      Alike s₁ s₂ (s₁.freshId m₁) (s₂.freshId m₂) r (after (poll s₁) w₁) (after (poll s₂) w₂) := by
  obtain ⟨u₁, v₁, x₁, hbounce₁, hpause₁, hscale₁, hskip₁⟩ := poll_kinds hs₁.sparesPoll w₁
  obtain ⟨u₂, v₂, x₂, hbounce₂, hpause₂, hscale₂, hskip₂⟩ := poll_kinds hs₂.sparesPoll w₂
  -- what the first two kinds leave for the scales
  have hu₁ : Apart .bounce w₁ u₁ := hbounce₁.apart hst₁ nofun
  have hu₂ : Apart .bounce w₂ u₂ := hbounce₂.apart hst₂ nofun
  have hv₁ : Apart .pause u₁ v₁ := hpause₁.apart hst₁ nofun
  have hv₂ : Apart .pause u₂ v₂ := hpause₂.apart hst₂ nofun
  have hbounces := hbounce₁.bounces_agree hnow hconfig hs₁ hs₂ hst₁ hst₂ hkeyed₁ hkeyed₂ hbounce₂
    (h.action? .bounce) h
  have hpauses : ∀ id₁ id₂, Alike s₁ s₂ id₁ id₂ r v₁ v₂ := fun id₁ id₂ =>
    hpause₁.alike hnow hconfig hs₁ hs₂ hst₁ hst₂ (hu₁.keyed hkeyed₁) (hu₂.keyed hkeyed₂) hpause₂
      nofun nofun (h.action? .pause) (.of_agree hbounces)
  have hkeyed₁' : v₁.cluster.Keyed := hv₁.keyed (hu₁.keyed hkeyed₁)
  have hkeyed₂' : v₂.cluster.Keyed := hv₂.keyed (hu₂.keyed hkeyed₂)
  obtain ⟨m₁, m₂, hm₁, hm₂, hscales⟩ := hscale₁.scales_alike hnow hconfig hs₁ hs₂ hst₁ hst₂ hkeyed₁'
    hkeyed₂' hscale₂ (h.action? .scale) ((hfresh₁.apart hu₁).apart hv₁)
    ((hfresh₂.apart hu₂).apart hv₂) hpauses
  refine ⟨m₁, m₂, (hu₁.minted.trans hv₁.minted).trans hm₁, (hu₂.minted.trans hv₂.minted).trans hm₂,
    ?_⟩
  exact hskip₁.alike hnow hconfig hs₁ hs₂ hst₁ hst₂ (hscale₁.keyed hkeyed₁')
    (hscale₂.keyed hkeyed₂') hskip₂ nofun nofun (h.action? .skipHealthchecks) hscales

end Lockstep

/-- Beside the request that was scaled there is another one, with an action of the same name, a
scale that is due as well, and a cleanup under a name that is made next for the first one. -/
def crowdedWeb : World where
  store := scaledWeb.store.save
    { requestId := "db", actionId := "s-1", user := "bob", startMillis := 0
      terms := { durationMillis := some 1000 }, undo := .scale 4 }
  cluster :=
    { scaledWeb.cluster with
      requests := scaledWeb.cluster.requests.insert "db" ⟨{ id := "db", instances := 9 }, .active⟩
      requestCleanups := [{ user := "bob", reason := .incrementalBounce, timestamp := 20
                            requestId := "db", deployId := some "d1", message := none
                            actionId := some "id-0" }] }

/-- Conditions in which the other request cannot be updated. -/
def Conditions.hostile (now : Int64) : Conditions :=
  { Conditions.calm now with
    wall := 7
    freshId := fun n => "id-" ++ toString n
    faults := fun _ c =>
      match c.during, c.operation with
      | some "db", .updateRequest _ => some (.fails (.requestNotFound "db"))
      | _, _ => none }

theorem favours_hostile (now : Int64) : (Conditions.hostile now).Favours "web" := by
  rintro n ⟨during, operation⟩ hcall
  show (match during, operation with
    | some "db", .updateRequest _ => some (Fault.fails (.requestNotFound "db"))
    | _, _ => none) = none
  split
  · rcases hcall with hown | hduring
    · exact nomatch hown
    · exact absurd (Option.some.inj hduring) (by decide)
  · rfl

theorem agree_crowdedWeb : Agree "web" scaledWeb crowdedWeb := by
  refine ⟨by decide +kernel, fun kind => ?_⟩
  show (scaledWeb.store.save _).get? _ = _
  rw [Store.get?_save, if_neg fun h => absurd (Store.key_inj.mp h).2 (by decide)]

/-- The scale of the one request is undone alike, whether the other is there or not. -/
theorem poll_alike_crowdedWeb :
    ∃ m₁ m₂, scaledWeb.minted ≤ m₁ ∧ crowdedWeb.minted ≤ m₂ ∧
      Alike (.calm 10000) (.hostile 10000) ((Conditions.calm 10000).freshId m₁)
        ((Conditions.hostile 10000).freshId m₂) "web" (after (poll (.calm 10000)) scaledWeb)
        (after (poll (.hostile 10000)) crowdedWeb) := by
  have hfresh : (Conditions.hostile 10000).Fresh "web" crowdedWeb := by
    intro cleanup hmem hr
    rw [List.mem_singleton.mp hmem] at hr
    exact absurd hr (by decide)
  refine poll_alike rfl rfl (fun _ _ _ => rfl) (favours_hostile 10000) scaledWeb_wellKeyed ?_
    scaledWeb_keyed ?_ (fun _ hmem => nomatch hmem) hfresh agree_crowdedWeb
  · exact scaledWeb_wellKeyed.save (Action.decode_encode _)
  · have hid : Request.id { id := "db", instances := 9 } = "db" := rfl
    exact scaledWeb_keyed.insert hid rfl

end Lapse.Poll
