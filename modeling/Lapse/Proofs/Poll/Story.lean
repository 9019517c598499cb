import Lapse.Proofs.Poll.Cancellation
import Lapse.Proofs.Poll.Undoing
import Lapse.Proofs.Store.Ledger

/-!
# The history and the report tell one story

While no call fails, a poll appends to the history what it undid and nothing else: pauses, scales each
with the bounce that followed, and changes of the flag for health checks, and of each kind in the order
of the requests.  Every scale that was undone is notified, every bounce that was called off has its
cancellation in the queue, and the tally of a kind counts what was undone of it.
-/

namespace Lapse.Poll

variable {s : Conditions} {kind : Kind} {w w' : World} {a : Action} {entry : Request.Entry}
  {u : Undoing}

/-! ## What a poll undoes -/

/-- How the visits of a poll to the records of a kind end. -/
def Conditions.endings (s : Conditions) (w : World) (kind : Kind) : List Ending :=
  (w.store.actions kind).map fun a => s.foreseen a (entryAt s w kind a.requestId)

/-- What a poll undoes of a kind, and the entries that it undoes it against. -/
def Conditions.undone (s : Conditions) (w : World) (kind : Kind) :
    List (Action × Request.Entry) :=
  (w.store.actions kind).filterMap fun a => s.undone? a (entryAt s w kind a.requestId)

theorem isSome_undone? (a : Action) (found : Option Request.Entry) :
    (s.undone? a found).isSome = decide (s.foreseen a found = .applied) := by
  cases found with
  | none =>
      refine (decide_eq_false ?_).symm
      unfold Conditions.foreseen
      cases a.standing s.now s.config with
      | malformed why => exact nofun
      | waiting => exact nofun
      | due lifetime => exact nofun
  | some entry =>
      rw [undone?_some]
      by_cases happlied : s.foreseen a (some entry) = .applied
      · rw [if_pos happlied, decide_eq_true happlied]
        rfl
      · rw [if_neg happlied, decide_eq_false happlied]
        rfl

/-- As many are undone as visits end so. -/
theorem length_undone (s : Conditions) (w : World) (kind : Kind) :
    (s.undone w kind).length = (s.endings w kind).count .applied := by
  rw [Conditions.undone, Conditions.endings, List.length_filterMap_eq_countP,
    List.count_eq_countP, List.countP_map]
  exact List.countP_congr fun a _ => by simp [isSome_undone?]

theorem of_undone?_eq_some {found : Option Request.Entry} {x : Action × Request.Entry}
    (h : s.undone? a found = some x) :
    x.1 = a ∧ found = some x.2 ∧ s.foreseen a (some x.2) = .applied := by
  obtain ⟨entry, hentry, rfl⟩ := Option.map_eq_some_iff.mp h
  obtain ⟨hfound, happlied⟩ := Option.filter_eq_some_iff.mp hentry
  exact ⟨rfl, hfound, of_decide_eq_true happlied⟩

theorem of_mem_undone (h : (a, entry) ∈ s.undone w kind) :
    a ∈ w.store.actions kind ∧ entryAt s w kind a.requestId = some entry ∧
      s.foreseen a (some entry) = .applied := by
  obtain ⟨b, hb, hundone⟩ := List.mem_filterMap.mp h
  obtain ⟨rfl, hfound, happlied⟩ := of_undone?_eq_some hundone
  exact ⟨hb, hfound, happlied⟩

/-- What is undone of a kind is in the byte order of the requests. -/
theorem undone_byteOrder (hst : w.store.WellKeyed) (kind : Kind) :
    (s.undone w kind).Pairwise fun x y =>
      Utf8.encode x.1.requestId < Utf8.encode y.1.requestId := by
  rw [Conditions.undone, List.pairwise_filterMap]
  refine (hst.actions_byteOrder kind).imp fun {a b} hlt x hx y hy => ?_
  rw [(of_undone?_eq_some hx).1, (of_undone?_eq_some hy).1]
  exact hlt

/-- What is undone is due, and undoing it is neither refused nor skipped. -/
theorem of_foreseen_applied (h : s.foreseen a (some entry) = .applied) :
    ∃ lifetime, a.isDue s.now s.config = .ok true ∧ a.lifetime s.config = .ok lifetime ∧
      a.endingOn entry = .applied := by
  unfold Conditions.foreseen at h
  cases hstanding : a.standing s.now s.config with
  | malformed why =>
      rw [hstanding] at h
      exact nomatch h
  | waiting =>
      rw [hstanding] at h
      exact nomatch h
  | due lifetime =>
      obtain ⟨hdue, hlives⟩ := of_standing_due hstanding
      rw [hstanding] at h
      exact ⟨lifetime, hdue, hlives, h⟩

/-- A scale that is undone restores the count of instances that it saved. -/
theorem undo_of_applied (hkind : u.action.kind = .scale)
    (happlied : u.action.endingOn u.entry = .applied) : u.action.undo = .scale u.instances := by
  obtain ⟨n, hundo⟩ := Action.kind_eq_scale_iff.mp hkind
  rw [Undoing.instances, Action.instances_undone_scale hundo happlied]
  exact hundo

/-- After a poll whose calls do not fail the cancellation of a bounce that was undone is queued. -/
theorem poll_cancels_undone (hs : s.Reliable) (hst : w.store.WellKeyed)
    (h : (a, entry) ∈ s.undone w .bounce) : ∃ deployId lifetime, a.undo = .bounce deployId ∧
      a.lifetime s.config = .ok lifetime ∧
      ∃ entry ∈ (after (poll s) w).cluster.pending,
        Cancels s a deployId (a.expiryText lifetime) entry := by
  obtain ⟨hmem, hfound, happlied⟩ := of_mem_undone h
  obtain ⟨lifetime, hdue, hlives, -⟩ := of_foreseen_applied happlied
  obtain ⟨old, hold, -⟩ := Option.map_eq_some_iff.mp hfound
  obtain ⟨deployId, hundo⟩ := Action.kind_eq_bounce_iff.mp (hst.of_mem_actions hmem).1
  have hqueued :=
    poll_cancels hs w hst hmem hundo hdue hlives (OrderedMap.contains_iff.mpr ⟨old, hold⟩)
  rw [a.expiryMessage_eq] at hqueued
  exact ⟨deployId, lifetime, hundo, hlives, _, hqueued, cancels_cancellation ..⟩

/-! ## The passes of a poll -/

/-- While no call fails, the pass over a kind appends what it undid and nothing else. -/
theorem passOf_tells (hs : s.Reliable) (hst : w.store.WellKeyed) (hkeyed : w.cluster.Keyed)
    (kind : Kind) : ∃ us : List Undoing,
      us.map (fun u => (u.action, u.entry)) = s.undone w kind ∧ (∀ u ∈ us, u.Sound) ∧
      Tells s us (w.upTo s kind) (after (passOf s kind) (w.upTo s kind)) := by
  obtain ⟨es, w₁, hes, hlisted, hends, -⟩ := poll_ends hs.sparesPoll kind w
  have hcluster : w₁.cluster = (w.upTo s kind).cluster := hlisted.cluster
  have hlists : Tells s [] (w.upTo s kind) w₁ := .of_eq hcluster hlisted.saved
  obtain ⟨us, hus, hsound, htells⟩ := hends.tells hs
    (hcluster ▸ (upTo_run hs.sparesPoll kind w).keyed hkeyed) (hes ▸ hst.actions_pairwise kind)
  refine ⟨us, hus.trans ?_, hsound, hlists.trans htells⟩
  rw [hes, hcluster]
  simp only [get?_upTo hs hst hkeyed]
  rfl

/-- The passes of a poll append one after another what each of them undid. -/
theorem poll_passes_tell {us : Kind → List Undoing} (h : ∀ kind,
    Tells s (us kind) (w.upTo s kind) (after (passOf s kind) (w.upTo s kind))) :
    Tells s (us .bounce ++ us .pause ++ us .scale ++ us .skipHealthchecks) w
      (after (poll s) w) :=
  (((h .bounce).trans (h .pause)).trans (h .scale)).trans (h .skipHealthchecks)

/-! ## What is told -/

/-- What the history tells of what was undone of each kind. -/
def told (s : Conditions) (us : Kind → List Undoing) : List Request.Record :=
  (us .pause).map (·.record s .unpaused) ++
    (us .scale).flatMap (fun u =>
      u.record s .scaleReverted :: if u.cascade.isSome then [u.bounced s] else []) ++
    (us .skipHealthchecks).map (·.record s .updated)

theorem Undoing.records_eq (hkind : u.action.kind = kind) : u.records s =
    (kind.event?.map (u.record s)).toList ++ if u.cascade.isSome then [u.bounced s] else [] := by
  rw [Undoing.records, Undoing.own, hkind]

section Kinds

variable {us : Kind → List Undoing} (hkinds : ∀ kind, ∀ u ∈ us kind, u.action.kind = kind)
  (hsound : ∀ kind, ∀ u ∈ us kind, u.Sound)

include hkinds hsound

/-- Nothing follows what was undone of other kinds than scales. -/
theorem flatMap_records (hscale : kind ≠ .scale) : (us kind).flatMap (·.records s) =
    kind.event?.elim [] fun event => (us kind).map (·.record s event) := by
  have hrecords : ∀ u ∈ us kind, u.records s = (kind.event?.map (u.record s)).toList := by
    intro u hu
    have hkind := hkinds kind u hu
    rw [Undoing.records_eq hkind, (hsound kind u hu).cascade_eq_none (hkind ▸ hscale)]
    exact List.append_nil _
  rw [List.flatMap_congr hrecords]
  cases kind.event? with
  | none => exact List.flatMap_eq_nil_iff.mpr fun _ _ => rfl
  | some event => exact List.map_eq_flatMap.symm

theorem filterMap_cascade (hscale : kind ≠ .scale) : (us kind).filterMap (·.cascade) = [] :=
  List.filterMap_eq_nil_iff.mpr fun u hu =>
    (hsound kind u hu).cascade_eq_none ((hkinds kind u hu).symm ▸ hscale)

omit hsound in
theorem flatMap_notes : (us kind).flatMap (·.notes s) =
    if kind = .scale then (us kind).map (·.note s) else [] := by
  have hnotes : ∀ u ∈ us kind, u.notes s = if kind = .scale then [u.note s] else [] :=
    fun u hu => by rw [Undoing.notes, hkinds kind u hu]
  rw [List.flatMap_congr hnotes]
  split
  · exact List.map_eq_flatMap.symm
  · exact List.flatMap_eq_nil_iff.mpr fun _ _ => rfl

/-- What was appended kind after kind, read off the kinds. -/
theorem tells_of_kinds
    (h : Tells s (us .bounce ++ us .pause ++ us .scale ++ us .skipHealthchecks) w w') :
    w'.cluster.requestHistory = w.cluster.requestHistory ++ told s us ∧
      w'.cluster.notifications = w.cluster.notifications ++ (us .scale).map (·.note s) ∧
      w'.cluster.requestCleanups = w.cluster.requestCleanups ++
        ((us .scale).filterMap (·.cascade)).map (·.cleanup s) ∧
      w'.saved = w.saved ++ ((us .scale).filterMap (·.cascade)).map (·.action s) := by
  have hscales : (us .scale).flatMap (·.records s) = (us .scale).flatMap fun u =>
      u.record s .scaleReverted :: if u.cascade.isSome then [u.bounced s] else [] :=
    List.flatMap_congr fun u hu => Undoing.records_eq (hkinds .scale u hu)
  have hcascades : (us .bounce ++ us .pause ++ us .scale ++ us .skipHealthchecks).filterMap
      (·.cascade) = (us .scale).filterMap (·.cascade) := by
    rw [List.filterMap_append, List.filterMap_append, List.filterMap_append,
      filterMap_cascade hkinds hsound (by decide : Kind.bounce ≠ .scale),
      filterMap_cascade hkinds hsound (by decide : Kind.pause ≠ .scale),
      filterMap_cascade hkinds hsound (by decide : Kind.skipHealthchecks ≠ .scale),
      List.append_nil]
    rfl
  refine ⟨?_, ?_, ?_, ?_⟩
  · rw [h.history, List.flatMap_append, List.flatMap_append, List.flatMap_append, hscales,
      flatMap_records hkinds hsound (by decide : Kind.bounce ≠ .scale),
      flatMap_records hkinds hsound (by decide : Kind.pause ≠ .scale),
      flatMap_records hkinds hsound (by decide : Kind.skipHealthchecks ≠ .scale)]
    rfl
  · rw [h.notifications, List.flatMap_append, List.flatMap_append, List.flatMap_append,
      flatMap_notes hkinds, flatMap_notes hkinds, flatMap_notes hkinds, flatMap_notes hkinds]
    exact congrArg (_ ++ ·) (List.append_nil _)
  · rw [h.cleanups, hcascades]
  · rw [h.saved, hcascades]

end Kinds

/-! ## What is counted -/

theorem countP_record (us : List Undoing) (event event' : Request.Event) :
    (us.map (·.record s event)).countP (·.event = event') =
      if event = event' then us.length else 0 := by
  rw [List.countP_map]
  split
  · next heq => exact List.countP_eq_length.mpr fun _ _ => decide_eq_true heq
  · next hne => exact List.countP_eq_zero.mpr fun _ _ => by simpa [Undoing.record] using hne

/-- The bounces that follow scales are counted by themselves. -/
theorem countP_scaleReverted (us : List Undoing) {event : Request.Event}
    (hevent : event ≠ .bounced) :
    (us.flatMap fun u => u.record s .scaleReverted ::
      if u.cascade.isSome then [u.bounced s] else []).countP (·.event = event) =
      if .scaleReverted = event then us.length else 0 := by
  induction us with
  | nil => exact (ite_self 0).symm
  | cons u us ih =>
      have hbounced : (if u.cascade.isSome then [u.bounced s] else []).countP
          (·.event = event) = 0 := by
        refine List.countP_eq_zero.mpr fun record hmem => ?_
        obtain ⟨-, hmem⟩ := List.mem_ite_nil_right.mp hmem
        rw [List.mem_singleton.mp hmem]
        exact fun h => hevent (of_decide_eq_true h).symm
      rw [List.flatMap_cons, List.countP_append, ih, List.countP_cons, hbounced]
      by_cases heq : Request.Event.scaleReverted = event
      · simp [Undoing.record, heq, Nat.add_comm]
      · simp [Undoing.record, heq]

/-- What is told has one entry of its event for everything that was undone of a kind. -/
theorem countP_told (us : Kind → List Undoing) {event : Request.Event}
    (h : kind.event? = some event) : (told s us).countP (·.event = event) = (us kind).length := by
  have hbounced : event ≠ .bounced := by
    rintro rfl
    cases kind <;> exact nomatch h
  rw [told, List.countP_append, List.countP_append, countP_record, countP_record,
    countP_scaleReverted _ hbounced]
  cases kind with
  | bounce => exact nomatch h
  | pause => obtain rfl := Option.some.inj h; rfl
  | scale => obtain rfl := Option.some.inj h; exact Nat.zero_add _
  | skipHealthchecks => obtain rfl := Option.some.inj h; exact Nat.zero_add _

/-! ## A poll -/

/-- The story of a poll: what it undid of each kind, and all that it left of that. -/
structure Story (s : Conditions) (w : World) (us : Kind → List Undoing) (w' : World) : Prop where
  undone : ∀ kind, (us kind).map (fun u => (u.action, u.entry)) = s.undone w kind
  byteOrder : ∀ kind, (us kind).Pairwise fun u v =>
    Utf8.encode u.action.requestId < Utf8.encode v.action.requestId
  sound : ∀ kind, ∀ u ∈ us kind, u.Sound
  messages : ∀ kind, ∀ u ∈ us kind, ∃ lifetime, u.action.lifetime s.config = .ok lifetime ∧
    u.message s = some (u.action.expiryText lifetime)
  scales : ∀ u ∈ us .scale, u.action.undo = .scale u.instances
  history : w'.cluster.requestHistory = w.cluster.requestHistory ++ told s us
  notifications :
    w'.cluster.notifications = w.cluster.notifications ++ (us .scale).map (·.note s)
  /-- A bounce that followed was ordered. -/
  cleanups : w'.cluster.requestCleanups =
    w.cluster.requestCleanups ++ ((us .scale).filterMap (·.cascade)).map (·.cleanup s)
  /-- A bounce that followed was stored. -/
  saved : w'.saved = w.saved ++ ((us .scale).filterMap (·.cascade)).map (·.action s)
  cancelled : ∀ u ∈ us .bounce, ∃ deployId message, u.action.undo = .bounce deployId ∧
    u.message s = some message ∧
    ∃ entry ∈ w'.cluster.pending, Cancels s u.action deployId message entry

/-- **STORY**: while no call fails, a poll appends to the history what it undid and nothing else, and
its tallies count these entries. -/
theorem poll_tells (hs : s.Reliable) (w : World) (hst : w.store.WellKeyed)
    (hkeyed : w.cluster.Keyed) :
    ∃ us : Kind → List Undoing, Story s w us (after (poll s) w) ∧
      ∀ kind, ∃ t, (answer (poll s) w).kind? kind = some t ∧
        t = .ofEndings kind (s.endings w kind) ∧
        t.applied = .ofNat (us kind).length ∧
        ∀ event, kind.event? = some event →
          t.applied = .ofNat ((told s us).countP (·.event = event)) := by
  choose us hundone hsound htells using passOf_tells hs hst hkeyed
  have hmem : ∀ kind, ∀ u ∈ us kind, (u.action, u.entry) ∈ s.undone w kind := fun kind u hu =>
    hundone kind ▸ List.mem_map.mpr ⟨u, hu, rfl⟩
  have hkinds : ∀ kind, ∀ u ∈ us kind, u.action.kind = kind := fun kind u hu =>
    (hst.of_mem_actions (of_mem_undone (hmem kind u hu)).1).1
  -- what is told of an action says how long it lived
  have hmessage : ∀ u : Undoing, ∀ {lifetime}, u.action.lifetime s.config = .ok lifetime →
      u.message s = some (u.action.expiryText lifetime) := by
    intro u lifetime hlives
    rw [Undoing.message, hlives]
    rfl
  obtain ⟨hhistory, hnotes, hcleanups, hsaved⟩ :=
    tells_of_kinds hkinds hsound (poll_passes_tell htells)
  have hlength : ∀ kind,
      (Tally.ofEndings kind (s.endings w kind)).applied = .ofNat (us kind).length := by
    intro kind
    rw [← List.length_map (f := fun u : Undoing => (u.action, u.entry)), hundone kind,
      length_undone]
    rfl
  refine ⟨us, ⟨hundone, fun kind => ?_, hsound, fun kind u hu => ?_, fun u hu => ?_, hhistory,
    hnotes, hcleanups, hsaved, fun u hu => ?_⟩, fun kind => ?_⟩
  · have horder := undone_byteOrder (s := s) hst kind
    rw [← hundone kind, List.pairwise_map] at horder
    exact horder
  · obtain ⟨-, -, happlied⟩ := of_mem_undone (hmem kind u hu)
    obtain ⟨lifetime, -, hlives, -⟩ := of_foreseen_applied happlied
    exact ⟨lifetime, hlives, hmessage u hlives⟩
  · obtain ⟨-, -, happlied⟩ := of_mem_undone (hmem .scale u hu)
    obtain ⟨lifetime, -, -, happlied⟩ := of_foreseen_applied happlied
    exact undo_of_applied (hkinds .scale u hu) happlied
  · obtain ⟨deployId, lifetime, hundo, hlives, hqueued⟩ :=
      poll_cancels_undone hs hst (hmem .bounce u hu)
    exact ⟨deployId, _, hundo, hmessage u hlives, hqueued⟩
  · exact ⟨_, kind?_foreseen hs hst hkeyed kind, rfl, hlength kind, fun event hevent =>
      (hlength kind).trans (congrArg UInt32.ofNat (countP_told us hevent).symm)⟩

/-- A request that expired actions of every kind are stored for. -/
def expiredWeb : World where
  store :=
    let action (id : String) (undo : Action.Undo) : Action :=
      { requestId := "web", actionId := id, user := "alice", startMillis := 0
        terms := { durationMillis := some 5000 }, undo }
    (((Store.save .empty (action "b-1" (.bounce "d0"))).save (action "p-1" .pause)).save
      (action "s-1" (.scale 3))).save (action "h-1" (.skipHealthchecks (some true)))
  cluster :=
    { requests := OrderedMap.empty.insert "web"
        ⟨{ id := "web", instances := 7, bounceAfterScale := some true }, .paused⟩
      inUseDeploys := OrderedMap.empty.insert "web" "d1" }

theorem expiredWeb_wellKeyed : expiredWeb.store.WellKeyed :=
  (((Store.wellKeyed_empty.save (Action.decode_encode _)).save (Action.decode_encode _)).save
    (Action.decode_encode _)).save (Action.decode_encode _)

theorem expiredWeb_keyed : expiredWeb.cluster.Keyed :=
  Cluster.keyed_empty.insert (show Request.id { id := "web", instances := 7 } = "web" from rfl) rfl

/-- One action of each kind is undone, and a bounce follows the scale. -/
theorem poll_tells_expiredWeb : ∃ us : Kind → List Undoing,
    Story (.calm 10000) expiredWeb us (after (poll (.calm 10000)) expiredWeb) ∧
    (∀ kind ∈ Kind.all, ∃ t, (answer (poll (.calm 10000)) expiredWeb).kind? kind = some t ∧
      t.applied = 1 ∧ (us kind).length = 1) ∧
    (told (.calm 10000) us).map (·.event) = [.unpaused, .scaleReverted, .bounced, .updated] := by
  obtain ⟨us, hstory, htallies⟩ := poll_tells (Conditions.reliable_calm 10000) expiredWeb
    expiredWeb_wellKeyed expiredWeb_keyed
  refine ⟨us, hstory, fun kind hkind => ?_, ?_⟩
  · obtain ⟨t, htally, -, happlied, -⟩ := htallies kind
    have hundone : ∀ kind ∈ Kind.all,
        (Conditions.undone (.calm 10000) expiredWeb kind).length = 1 := by
      decide +kernel
    have hlength := congrArg List.length (hstory.undone kind)
    rw [List.length_map, hundone kind hkind] at hlength
    exact ⟨t, htally, happlied.trans (congrArg UInt32.ofNat hlength), hlength⟩
  · have hevents : (after (poll (.calm 10000)) expiredWeb).cluster.requestHistory.map (·.event) =
        [.unpaused, .scaleReverted, .bounced, .updated] := by
      decide +kernel
    rwa [hstory.history] at hevents

end Lapse.Poll
