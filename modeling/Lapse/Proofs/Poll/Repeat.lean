import Lapse.Proofs.Action
import Lapse.Proofs.Deadline
import Lapse.Proofs.Poll.Stored

/-!
# Polling again

A poll leaves nothing to do for a poll of the same instant or an earlier one.  A store is settled
when every record of a kind is an action that waits; a poll of a settled store changes nothing, and
counts each record as not due.  What a poll leaves is settled: the old records that stay wait by
themselves, and a bounce that was stored in the pass began at its very instant, so that not even a
lifetime of zero is over.  And what waits at an instant waited at every earlier one, also where the
difference of instants leaves its range.
-/

namespace Lapse

namespace Poll

variable {s s₁ s₂ : Conditions}

theorem waits_iff {a : Action} : s.waits a = true ↔
    ∃ lifetime, a.lifetime s.config = .ok lifetime ∧
      (a.elapsed s.now).toInt ≤ lifetime.toNat := by
  rw [Conditions.waits, Action.isDue]
  cases a.lifetime s.config with
  | error why => simp [bind, Except.bind]
  | ok lifetime => simp [bind, Except.bind, pure, Except.pure]

/-- What waits at an instant waited at every earlier one. -/
theorem waits_of_le (hconfig : s₂.config = s₁.config) (hnow : s₂.now ≤ s₁.now) {a : Action}
    (h : s₁.waits a = true) : s₂.waits a = true := by
  obtain ⟨lifetime, hlifetime, hle⟩ := waits_iff.mp h
  rw [← hconfig] at hlifetime
  exact waits_iff.mpr ⟨lifetime, hlifetime, (a.elapsed_mono hnow).trans hle⟩

/-- A bounce that follows a scale waits at the instant of its poll, whatever bounces live. -/
theorem waits_cascadeAction (s : Conditions) (a : Action) (r deployId id : String) :
    s.waits (cascadeAction s a r deployId id) = true := by
  refine waits_iff.mpr ⟨s.config.bounceMillis, rfl, ?_⟩
  have hnone := Action.elapsed_nonpos (a := cascadeAction s a r deployId id) (Int64.le_refl s.now)
  omega

/-! ## Settled stores -/

/-- Every record of a kind is an action that waits. -/
def Settled (s : Conditions) (st : Store) : Prop :=
  ∀ kind r bytes, st.get? (Store.key kind r) = some bytes →
    ∃ a, Action.decode bytes = some a ∧ s.waits a = true

theorem Settled.of_le (hconfig : s₂.config = s₁.config) (hnow : s₂.now ≤ s₁.now) {st : Store}
    (h : Settled s₁ st) : Settled s₂ st := by
  intro kind r bytes hget
  obtain ⟨a, hdec, hwaits⟩ := h kind r bytes hget
  exact ⟨a, hdec, waits_of_le hconfig hnow hwaits⟩

theorem Settled.waits {st : Store} (h : Settled s st) {kind : Kind} {a : Action}
    (ha : a ∈ st.actions kind) : s.waits a = true := by
  obtain ⟨r, hr⟩ := Store.mem_actions_iff.mp ha
  obtain ⟨bytes, hget, hdec⟩ := Option.bind_eq_some_iff.mp hr
  obtain ⟨b, hdec', hwaits⟩ := h kind r bytes hget
  rw [hdec] at hdec'
  rw [Option.some.inj hdec']
  exact hwaits

/-- Nothing in a settled store is lost when a kind is listed. -/
theorem Settled.healed_eq {st : Store} (h : Settled s st) (kind : Kind) :
    st.healed kind = st := by
  refine Eq.trans (OrderedMap.filter_congr fun k bytes hget => ?_) (OrderedMap.filter_true st)
  cases hkey : Store.isKeyOf kind k with
  | false => rfl
  | true =>
      obtain ⟨r, rfl⟩ := Store.isKeyOf_iff.mp hkey
      obtain ⟨a, hdec, -⟩ := h kind r bytes hget
      rw [hdec]
      rfl

/-- A tally with more records that are not due. -/
def Tally.withWaiting (t : Tally) (n : Nat) : Tally :=
  { t with examined := t.examined + .ofNat n, notDue := t.notDue + .ofNat n }

theorem Tally.withWaiting_zero (t : Tally) : t.withWaiting 0 = t := by
  simp [withWaiting]

theorem Tally.withWaiting_add (t : Tally) (m n : Nat) :
    (t.withWaiting m).withWaiting n = t.withWaiting (m + n) := by
  simp only [withWaiting, UInt32.ofNat_add, UInt32.add_assoc]

theorem visit_waiting {a : Action} (h : s.waits a = true) (t : Tally) (w : World) :
    answer (visit s a t) w = (t.withWaiting 1, none) ∧ after (visit s a t) w = w := by
  have hstanding : a.standing s.now s.config = .waiting := by
    rw [Conditions.waits] at h
    rcases hdue : a.isDue s.now s.config with why | due
    · rw [hdue] at h
      cases h
    · obtain ⟨lifetime, hlifetime⟩ := lifetime_of_isDue hdue
      cases due with
      | false => exact standing_of_isDue_false hlifetime hdue
      | true =>
          rw [hdue] at h
          cases h
  unfold visit
  rw [hstanding]
  exact ⟨rfl, rfl⟩

theorem sweep_waiting {actions : List Action} (h : ∀ a ∈ actions, s.waits a = true) (t : Tally)
    (w : World) : answer (sweep s actions t) w = t.withWaiting actions.length ∧
      after (sweep s actions t) w = w := by
  induction actions generalizing t with
  | nil => exact ⟨(t.withWaiting_zero).symm, rfl⟩
  | cons a rest ih =>
      obtain ⟨hanswer, hafter⟩ := visit_waiting (h a List.mem_cons_self) t w
      obtain ⟨htally, hworld⟩ := ih (fun b hb => h b (List.mem_cons_of_mem a hb)) (t.withWaiting 1)
      rw [sweep, answer_bind, after_bind, hanswer, hafter]
      refine ⟨htally.trans ?_, hworld⟩
      rw [t.withWaiting_add, List.length_cons, Nat.add_comm]

/-- The tally of a kind whose records are all not due. -/
def Tally.idle (st : Store) (kind : Kind) : Tally :=
  Tally.withWaiting { kind } (st.actions kind).length

theorem passOf_settled (hs : s.SparesPoll) {w : World} (h : Settled s w.store) (kind : Kind) :
    answer (passOf s kind) w = Tally.idle w.store kind ∧ Quiet w (after (passOf s kind) w) := by
  obtain ⟨hok, hquiet⟩ := run_listActions hs kind w
  obtain ⟨htally, hworld⟩ :=
    sweep_waiting (fun a ha => h.waits ha) { kind } (after (listActions s kind).run w)
  have hhealed : w.healed kind = w := by
    rw [World.healed, h.healed_eq kind]
  rw [hhealed] at hquiet
  unfold passOf
  rw [answer_bind, after_bind, hok]
  constructor
  · exact htally
  · dsimp only
    rw [hworld]
    exact hquiet

theorem passes_settled (hs : s.SparesPoll) (kinds : List Kind) {w : World}
    (h : Settled s w.store) :
    answer (passes s kinds) w = kinds.map (Tally.idle w.store) ∧
      Quiet w (after (passes s kinds) w) := by
  induction kinds generalizing w with
  | nil => exact ⟨rfl, Quiet.refl w⟩
  | cons kind rest ih =>
      obtain ⟨htally, hquiet⟩ := passOf_settled hs h kind
      obtain ⟨htallies, hquiet'⟩ := ih (w := after (passOf s kind) w) (hquiet.store ▸ h)
      rw [hquiet.store] at htallies
      rw [passes, answer_bind, after_bind, answer_bind, after_bind]
      constructor
      · exact congrArg₂ List.cons htally htallies
      · exact hquiet.trans hquiet'

/-- **NOTHING DUE**: a poll of a settled store changes nothing and counts each record as not due. -/
theorem poll_settled (hs : s.SparesPoll) {w : World} (h : Settled s w.store) :
    answer (poll s) w = ⟨s.now, Kind.all.map (Tally.idle w.store)⟩ ∧
      Quiet w (after (poll s) w) := by
  obtain ⟨htallies, hquiet⟩ := passes_settled hs Kind.all h
  unfold poll
  rw [answer_bind, after_bind, htallies]
  exact ⟨rfl, hquiet⟩

/-! ## What a poll leaves -/

/-- A record is an old one that the events done so far leave, or a bounce stored in the pass. -/
def Comes (s : Conditions) (st : Store) (done : List Event) (k : String) (bytes : Bytes) : Prop :=
  st.get? k = some bytes ∧ done.all (·.leaves s k bytes) = true ∨
    ∃ a r deployId id, bytes = (cascadeAction s a r deployId id).encode

/-- An event passes on where every record comes from. -/
theorem Happens.comes {ev : Event} {w₁ w₂ : World} (h : Happens s ev w₁ w₂) {st : Store}
    {done : List Event} (hdone : ∀ k bytes, w₁.store.get? k = some bytes → Comes s st done k bytes)
    {k : String} {bytes : Bytes} (hget : w₂.store.get? k = some bytes) :
    Comes s st (done ++ [ev]) k bytes := by
  obtain ⟨w, hw, hstore, -, -⟩ := h.left
  rw [hstore, Event.left, OrderedMap.get?_filter, Option.filter_eq_some_iff] at hget
  obtain ⟨hbefore, hleaves⟩ := hget
  have hold : w₁.store.get? k = some bytes → Comes s st (done ++ [ev]) k bytes := by
    intro hget
    rcases hdone k bytes hget with ⟨hst, hall⟩ | hbounce
    · refine .inl ⟨hst, ?_⟩
      rw [List.all_append, hall]
      simpa using hleaves
    · exact .inr hbounce
  rcases hw with hun | ⟨kind, a, entry, -, -, -, -, hbounce⟩
  · rw [hun.store] at hbefore
    exact hold hbefore
  · obtain ⟨deployId, n, -, hsave, -⟩ := hbounce.stored
    rw [hsave, Store.get?_save] at hbefore
    split at hbefore
    · exact .inr ⟨a, entry.request.id, deployId, s.freshId n, (Option.some.inj hbefore).symm⟩
    · exact hold hbefore

/-- A poll of a well-keyed store leaves it settled, whatever reverts fail. -/
theorem settled_poll (hs : s.SparesPoll) (w : World) (hst : w.store.WellKeyed) :
    Settled s (after (poll s) w).store := by
  have hcomes : ∀ k bytes, (after (poll s) w).store.get? k = some bytes →
      Comes s w.store (schedule w.store) k bytes := by
    refine (poll_run hs w).1.induct
      (fun done w' => ∀ k bytes, w'.store.get? k = some bytes → Comes s w.store done k bytes) ?_ ?_
    · intro k bytes hget
      exact .inl ⟨hget, rfl⟩
    · intro done ev rest w₁ w₂ _ hdone hev k bytes hget
      exact hev.comes hdone hget
  intro kind r bytes hget
  rcases hcomes _ bytes hget with ⟨hold, hleaves⟩ | ⟨a, r', deployId, id, rfl⟩
  · -- an old record under a kind stays only if it is an action that waits
    rw [schedule_leaves hst hold, stays, if_pos] at hleaves
    · cases hdec : Action.decode bytes with
      | none =>
          rw [hdec] at hleaves
          cases hleaves
      | some a =>
          rw [hdec] at hleaves
          exact ⟨a, rfl, hleaves⟩
    · exact List.any_eq_true.mpr ⟨kind, by cases kind <;> decide, Store.isKeyOf_key.mpr rfl⟩
  · exact ⟨_, Action.decode_encode _, waits_cascadeAction s a r' deployId id⟩

/-- **POLLING AGAIN**: after a poll of a well-keyed store, whatever reverts failed in it, a poll of
the same instant or an earlier one changes neither the cluster nor the store, and reports every
record that it finds as not due and nothing else. -/
theorem poll_again (hs₁ : s₁.SparesPoll) (hs₂ : s₂.SparesPoll) (hconfig : s₂.config = s₁.config)
    (hnow : s₂.now ≤ s₁.now) (w : World) (hst : w.store.WellKeyed) :
    let w₁ := after (poll s₁) w
    (after (poll s₂) w₁).cluster = w₁.cluster ∧ (after (poll s₂) w₁).store = w₁.store ∧
      answer (poll s₂) w₁ = ⟨s₂.now, Kind.all.map (Tally.idle w₁.store)⟩ := by
  intro w₁
  have hsettled : Settled s₂ w₁.store := (settled_poll hs₁ w hst).of_le hconfig hnow
  obtain ⟨hreport, hquiet⟩ := poll_settled hs₂ hsettled
  exact ⟨hquiet.cluster, hquiet.store, hreport⟩

/-- A request that bounces after scaling, scaled from two instances to five for five seconds. -/
def scaledWeb : World where
  store := Store.save .empty
    { requestId := "web", actionId := "s-1", user := "alice", startMillis := 0
      terms := { durationMillis := some 5000 }, undo := .scale 2 }
  cluster :=
    { requests := OrderedMap.empty.insert "web"
        ⟨{ id := "web", instances := 5, bounceAfterScale := some true }, .active⟩
      inUseDeploys := OrderedMap.empty.insert "web" "d1" }

theorem scaledWeb_wellKeyed : scaledWeb.store.WellKeyed :=
  Store.wellKeyed_empty.save (Action.decode_encode _)

theorem scaledWeb_keyed : scaledWeb.cluster.Keyed :=
  Cluster.keyed_empty.insert (show Request.id { id := "web", instances := 5 } = "web" from rfl) rfl

/-- Conditions in which bounces live no time. -/
def Conditions.hasty (now : Int64) : Conditions :=
  { Conditions.calm now with config := { bounceMinutes := 0 } }

theorem Conditions.reliable_hasty (now : Int64) : (Conditions.hasty now).Reliable :=
  fun _ _ _ h => nomatch h

/-- The bounce that follows the scale is not due a moment later. -/
theorem poll_again_scaledWeb :
    let w₁ := after (poll (.hasty 10000)) scaledWeb
    (after (poll (.hasty 10000)) w₁).cluster = w₁.cluster ∧
      (after (poll (.hasty 10000)) w₁).store = w₁.store ∧
      answer (poll (.hasty 10000)) w₁ = ⟨10000, [{ kind := .bounce, examined := 1, notDue := 1 },
        { kind := .pause }, { kind := .scale }, { kind := .skipHealthchecks }]⟩ := by
  have hs := (Conditions.reliable_hasty 10000).sparesPoll
  obtain ⟨hcluster, hstore, hreport⟩ :=
    poll_again hs hs rfl (Int64.le_refl 10000) scaledWeb scaledWeb_wellKeyed
  refine ⟨hcluster, hstore, hreport.trans ?_⟩
  decide +kernel

end Poll

end Lapse
