import Lapse.Proofs.Poll.Cascade
import Lapse.Proofs.Poll.Requests

/-!
# What a poll does to the store

A record leaves the store at one of five exits of a visit, and a revert of a scale writes a bounce
into the same table during the pass.  All exits but one remove the record, so what stays is told by
the record alone: it is of no kind, or it reads as an action that is not due.  Bounces are visited
before the first scale is, so that none of the new bounces is visited or removed, and the table
that a poll leaves is the part of the old one that stays, with the new bounces stored into it.
-/

namespace Lapse.Poll

variable {s : Conditions}

/-- Whether a record stays in the store during a poll, unless a new bounce replaces it. -/
def stays (s : Conditions) (k : String) (bytes : Bytes) : Bool :=
  if Kind.all.any fun kind => Store.isKeyOf kind k then
    match Action.decode bytes with
    | some a => s.waits a
    | none => false
  else true

/-! ## One revert -/

/-- The store is the same, nothing was stored, and the deploys in use are the same. -/
structure Unstored (w w' : World) : Prop where
  store : w'.store = w.store
  saved : w'.saved = w.saved
  inUse : w'.cluster.inUseDeploys = w.cluster.inUseDeploys

/-- The bounce that follows the scale of an action was stored, once. -/
structure StoredBounce (s : Conditions) (a : Action) (r : String) (w w' : World) : Prop where
  stored : ∃ deployId n, w.cluster.inUseDeploys.get? r = some deployId ∧
    w'.store = w.store.save (cascadeAction s a r deployId (s.freshId n)) ∧
    w'.saved = w.saved ++ [cascadeAction s a r deployId (s.freshId n)]
  inUse : w'.cluster.inUseDeploys = w.cluster.inUseDeploys

theorem Unstored.refl (w : World) : Unstored w w := ⟨rfl, rfl, rfl⟩

theorem Unstored.trans {w₁ w₂ w₃ : World} (h : Unstored w₁ w₂) (h' : Unstored w₂ w₃) :
    Unstored w₁ w₃ :=
  ⟨h'.store.trans h.store, h'.saved.trans h.saved, h'.inUse.trans h.inUse⟩

theorem StoredBounce.after_unstored {a : Action} {r : String} {w₁ w₂ w₃ : World}
    (h : Unstored w₁ w₂) (h' : StoredBounce s a r w₂ w₃) : StoredBounce s a r w₁ w₃ := by
  obtain ⟨deployId, n, hdeploy, hstore, hsaved⟩ := h'.stored
  rw [h.inUse] at hdeploy
  rw [h.store] at hstore
  rw [h.saved] at hsaved
  exact ⟨⟨deployId, n, hdeploy, hstore, hsaved⟩, h'.inUse.trans h.inUse⟩

theorem Adds.unstored {cleanups : List Request.Cleanup} {records : List Request.Record}
    {w w' : World} (h : Adds cleanups records [] w w') : Unstored w w' := by
  refine ⟨h.store, ?_, h.inUse⟩
  rw [h.saved, List.append_nil]

/-- **AT MOST ONE**: a revert stores nothing, or it is of a scale and stores the bounce that
follows it. -/
theorem revert_stores (a : Action) (entry : Request.Entry) (message : String) (w : World) :
    Unstored w (after (revert s a entry message).run w) ∨
      a.undo.kind = .scale ∧
        StoredBounce s a entry.request.id w (after (revert s a entry message).run w) := by
  rcases revert_bounces (s := s) a entry message w with hnothing | ⟨⟨n, hundo, -⟩, -, hbounces⟩
  · exact .inl hnothing.unstored
  rcases hbounces with hnothing | ⟨c, hscale, hold, hdeploy, ⟨n, hid⟩, hadds, -⟩
  · exact .inl hnothing.unstored
  have hactions : c.actions s = if c.stage = .stored then [c.action s] else [] := rfl
  by_cases hstage : c.stage = .stored
  · rw [if_pos hstage, Cascade.action, hscale, hold, hid] at hactions
    rw [hactions] at hadds
    refine .inr ⟨by rw [hundo]; rfl, ⟨c.deployId, n, hdeploy, hadds.store, hadds.saved⟩, ?_⟩
    exact hadds.inUse
  · rw [if_neg hstage] at hactions
    rw [hactions] at hadds
    exact .inl hadds.unstored

/-- Reverts keep every request under its own id. -/
theorem revertFrame_keyed (a : Action) (entry : Request.Entry) :
    RevertFrame s a entry fun w w' => w.cluster.Keyed → w'.cluster.Keyed where
  refl _ h := h
  trans h h' hw := h' (h hw)
  noted _ _ _ _ h := h
  minted _ _ _ h := h
  logged _ _ h := h
  cleanupRemoved _ _ _ h := h
  updatesRemoved _ _ _ _ _ h := h
  pendingRemoved _ _ _ h := h
  enqueued _ _ _ h := h
  cleanupCreated w deployId message id h := by
    obtain ⟨cleanups, hc⟩ :=
      w.cluster.createCleanup_eq (cascadeCleanup s a entry.request.id deployId message id)
    show (w.cluster.createCleanup _).2.Keyed
    rw [hc]
    exact h
  bounced _ _ h := h
  stored _ _ _ _ _ _ h := h
  updated w c new event message _ _ hc h := by
    obtain ⟨-, -, more, -, rfl⟩ := Cluster.updateRequest_eq_ok hc
    refine h.insert ?_ rfl
    rfl
  unpaused w c message hc h := by
    obtain ⟨entry, more, hget, -, rfl⟩ := Cluster.unpause_eq_ok hc
    have hid := h _ _ hget
    refine h.insert ?_ rfl
    exact hid
  notified _ _ _ _ h := h

/-! ## One event -/

/-- Whether an event leaves a record in the store. -/
def Event.leaves (s : Conditions) (k : String) (bytes : Bytes) : Event → Bool
  | .list kind => !Store.isKeyOf kind k || (Action.decode bytes).isSome
  | .visit kind a => k ≠ Store.key kind a.requestId || s.waits a

/-- What an event leaves of a store. -/
def Event.left (s : Conditions) (ev : Event) (st : Store) : Store :=
  OrderedMap.filter st fun k bytes => ev.leaves s k bytes

/-- A bounce that a poll may store after undoing the scale `a`: of the same request and user, begun
with the poll, on no terms of its own, and to be called off for the deploy in use. -/
def IsBounceAfter (s : Conditions) (inUse : OrderedMap String String) (a b : Action) : Prop :=
  ∃ deployId n, inUse.get? a.requestId = some deployId ∧
    b = { requestId := a.requestId
          actionId := s.freshId n
          user := a.user
          startMillis := s.now
          terms := { durationMillis := none, message := none }
          undo := .bounce deployId }

theorem IsBounceAfter.kind_eq {inUse : OrderedMap String String} {a b : Action}
    (h : IsBounceAfter s inUse a b) : b.kind = .bounce := by
  obtain ⟨deployId, n, -, rfl⟩ := h
  rfl

theorem IsBounceAfter.requestId_eq {inUse : OrderedMap String String} {a b : Action}
    (h : IsBounceAfter s inUse a b) : b.requestId = a.requestId := by
  obtain ⟨deployId, n, -, rfl⟩ := h
  rfl

/-- What an event may do to the store, and what it leaves alone. -/
structure Event.Stores (s : Conditions) (ev : Event) (w w' : World) : Prop where
  keyed : w'.cluster.Keyed
  inUse : w'.cluster.inUseDeploys = w.cluster.inUseDeploys
  store : w'.store = ev.left s w.store ∧ w'.saved = w.saved ∨
    ∃ kind a b, ev = .visit kind a ∧ a.undo.kind = .scale ∧ s.isDue a = true ∧
      IsBounceAfter s w.cluster.inUseDeploys a b ∧
      w'.store = ev.left s (w.store.save b) ∧ w'.saved = w.saved ++ [b]

theorem left_visit {kind : Kind} {a : Action} (h : s.waits a = false) (st : Store) :
    (Event.visit kind a).left s st = st.remove kind a.requestId := by
  refine OrderedMap.ext_get? fun k => ?_
  rw [Event.left, OrderedMap.get?_filter, Store.get?_remove]
  by_cases hk : k = Store.key kind a.requestId
  · rw [if_pos hk]
    exact Option.filter_eq_none_iff.mpr fun _ _ => by simp [Event.leaves, hk, h]
  · rw [if_neg hk]
    cases st.get? k with
    | none => rfl
    | some bytes => exact Option.filter_some_pos (by simp [Event.leaves, hk])

theorem left_visit_waits {kind : Kind} {a : Action} (h : s.waits a = true) (st : Store) :
    (Event.visit kind a).left s st = st := by
  refine OrderedMap.ext_get? fun k => ?_
  rw [Event.left, OrderedMap.get?_filter]
  cases st.get? k with
  | none => rfl
  | some bytes => exact Option.filter_some_pos (by simp [Event.leaves, h])

/-- An event removes what it does not leave; before that it stores nothing, or it undoes a due
scale and stores the bounce that follows. -/
theorem Happens.left {ev : Event} {w w' : World} (h : Happens s ev w w') : ∃ w₁,
    (Unstored w w₁ ∨ ∃ kind a entry, ev = .visit kind a ∧ a.undo.kind = .scale ∧
      s.isDue a = true ∧ w.cluster.requests.get? a.requestId = some entry ∧
      StoredBounce s a entry.request.id w w₁) ∧
    w'.store = ev.left s w₁.store ∧ w'.saved = w₁.saved ∧ w'.cluster = w₁.cluster := by
  cases h with
  | listed quiet =>
      exact ⟨w, .inl (.refl w), quiet.store, quiet.saved, quiet.cluster⟩
  | waiting due quiet =>
      refine ⟨w, .inl (.refl w), ?_, quiet.saved, quiet.cluster⟩
      rw [left_visit_waits (by rw [Conditions.waits, due]; rfl)]
      exact quiet.store
  | malformed due quiet =>
      refine ⟨w, .inl (.refl w), ?_, quiet.saved, quiet.cluster⟩
      rw [left_visit (by rw [Conditions.waits, due])]
      exact quiet.store
  | missing due absent quiet =>
      refine ⟨w, .inl (.refl w), ?_, quiet.saved, quiet.cluster⟩
      rw [left_visit (by rw [Conditions.waits, due]; rfl)]
      exact quiet.store
  | @reverted kind a _ w₁ _ lifetime entry due lives present before quiet =>
      have hwaits : s.waits a = false := by rw [Conditions.waits, due]; rfl
      have hdue : s.isDue a = true := by rw [Conditions.isDue, due]
      have hun₁ : Unstored w w₁ := ⟨before.store, before.saved, congrArg _ before.cluster⟩
      refine ⟨after (revert s a entry (a.expiryMessage lifetime)).run w₁, ?_, ?_, quiet.saved,
        quiet.cluster⟩
      · rcases revert_stores (s := s) a entry (a.expiryMessage lifetime) w₁ with hun | ⟨hscale, hst⟩
        · exact .inl (hun₁.trans hun)
        · exact .inr ⟨kind, a, entry, rfl, hscale, hdue, present, hst.after_unstored hun₁⟩
      · -- the record goes when the bounce is stored already
        rw [quiet.store, left_visit hwaits]
        rfl

theorem Happens.keyed {ev : Event} {w w' : World} (h : Happens s ev w w')
    (hkeyed : w.cluster.Keyed) : w'.cluster.Keyed := by
  cases h with
  | listed quiet => exact quiet.cluster ▸ hkeyed
  | waiting due quiet => exact quiet.cluster ▸ hkeyed
  | malformed due quiet => exact quiet.cluster ▸ hkeyed
  | missing due absent quiet => exact quiet.cluster ▸ hkeyed
  | reverted due lives present before quiet =>
      rw [quiet.cluster]
      exact (revertFrame_keyed _ _).revert _ _ (before.cluster ▸ hkeyed)

/-- What the events done so far have made of the store. -/
structure StoredSo (s : Conditions) (w : World) (done : List Event) (w' : World) : Prop where
  keyed : w'.cluster.Keyed
  inUse : w'.cluster.inUseDeploys = w.cluster.inUseDeploys
  store : ∃ stored, w'.saved = w.saved ++ stored ∧
    w'.store = stored.foldl Store.save
      (OrderedMap.filter w.store fun k bytes => done.all (·.leaves s k bytes)) ∧
    (∀ b ∈ stored, ∃ a, .visit .scale a ∈ done ∧ s.isDue a = true ∧
      IsBounceAfter s w.cluster.inUseDeploys a b) ∧
    (stored.map (·.requestId)).Nodup

theorem leaves_bounce {ev : Event} (h : ev.kind ≠ .bounce) (r : String) (bytes : Bytes) :
    ev.leaves s (Store.key .bounce r) bytes = true := by
  cases ev with
  | list kind =>
      have hkey : Store.isKeyOf kind (Store.key .bounce r) = false := by
        rw [Bool.eq_false_iff]
        exact fun hk => h (Store.isKeyOf_key.mp hk).symm
      rw [Event.leaves, hkey]
      rfl
  | visit kind a =>
      have hkey : Store.key .bounce r ≠ Store.key kind a.requestId :=
        fun hk => h (Store.key_inj.mp hk).1.symm
      rw [Event.leaves, decide_eq_true hkey]
      rfl

/-- An event that leaves the bounces stored so far may come before they are stored. -/
theorem left_foldl_save {done : List Event} {ev : Event} {stored : List Action}
    (h : ∀ b ∈ stored, ev.leaves s (Store.key b.kind b.requestId) b.encode = true) (st : Store) :
    ev.left s (stored.foldl Store.save
        (OrderedMap.filter st fun k bytes => done.all (·.leaves s k bytes))) =
      stored.foldl Store.save
        (OrderedMap.filter st fun k bytes => (done ++ [ev]).all (·.leaves s k bytes)) := by
  rw [Event.left, Store.filter_foldl_save _ _ h, OrderedMap.filter_filter]
  simp only [List.all_append, List.all_cons, List.all_nil, Bool.and_true]

/-- After the visit to a scale no event deals with bounces, and none visits that scale again. -/
theorem after_scale {st : Store} (hst : st.WellKeyed) {done rest : List Event} {ev : Event}
    (hes : schedule st = done ++ ev :: rest) {a : Action} (ha : .visit .scale a ∈ done) :
    ev.kind ≠ .bounce ∧ ∀ a', ev = .visit .scale a' → a.requestId ≠ a'.requestId := by
  have hpairs := hes ▸ schedule_pairwise hst
  have hsorted := (List.pairwise_append.mp hpairs).2.2 _ ha ev List.mem_cons_self
  constructor
  · intro hbounce
    exact nomatch hsorted.1 hbounce
  · intro a' hev
    exact hsorted.2 .scale a a' rfl hev

/-- Passing one event on. -/
theorem StoredSo.next {w w₁ w₂ : World} {done rest : List Event} {ev : Event}
    (hst : w.store.WellKeyed) (hes : schedule w.store = done ++ ev :: rest)
    (hdone : StoredSo s w done w₁) (hev : ev.Stores s w₁ w₂) :
    StoredSo s w (done ++ [ev]) w₂ := by
  obtain ⟨stored, hsaved, hstore, horigin, hnodup⟩ := hdone.store
  have hleaves : ∀ b ∈ stored, ev.leaves s (Store.key b.kind b.requestId) b.encode = true := by
    intro b hb
    obtain ⟨a, ha, -, hafter⟩ := horigin b hb
    rw [hafter.kind_eq]
    exact leaves_bounce (after_scale hst hes ha).1 _ _
  have horigin' : ∀ b ∈ stored, ∃ a, .visit .scale a ∈ done ++ [ev] ∧ s.isDue a = true ∧
      IsBounceAfter s w.cluster.inUseDeploys a b := by
    intro b hb
    obtain ⟨a, ha, hrest⟩ := horigin b hb
    exact ⟨a, List.mem_append_left _ ha, hrest⟩
  refine ⟨hev.keyed, hev.inUse.trans hdone.inUse, ?_⟩
  rcases hev.store with ⟨hleft, hsaved'⟩ | ⟨kind, a, b, rfl, hscale, hdue, hb, hleft, hsaved'⟩
  · refine ⟨stored, hsaved'.trans hsaved, ?_, horigin', hnodup⟩
    rw [hleft, hstore, left_foldl_save hleaves]
  · have hmem : .visit kind a ∈ schedule w.store := by
      rw [hes]
      exact List.mem_append_right _ List.mem_cons_self
    obtain rfl : kind = .scale :=
      (hst.of_mem_actions (mem_actions_of_mem_schedule hmem)).1.symm.trans hscale
    rw [hdone.inUse] at hb
    refine ⟨stored ++ [b], ?_, ?_, ?_, ?_⟩
    · rw [hsaved', hsaved, List.append_assoc]
    · rw [hleft, hstore, ← List.foldl_concat Store.save]
      refine left_foldl_save (fun c hc => ?_) w.store
      rcases List.mem_append.mp hc with hc | hc
      · exact hleaves c hc
      · rw [List.mem_singleton.mp hc, hb.kind_eq]
        exact leaves_bounce (by simp [Event.kind]) _ _
    · intro c hc
      rcases List.mem_append.mp hc with hc | hc
      · exact horigin' c hc
      · rw [List.mem_singleton.mp hc]
        exact ⟨a, List.mem_append_right _ List.mem_cons_self, hdue, hb⟩
    · -- two bounces for one request would come from two scales of it
      have hfresh : ∀ c ∈ stored, c.requestId ≠ b.requestId := by
        intro c hc
        obtain ⟨a', ha', -, hafter⟩ := horigin c hc
        rw [hafter.requestId_eq, hb.requestId_eq]
        exact (after_scale hst hes ha').2 a rfl
      rw [List.map_append, List.nodup_append]
      refine ⟨hnodup, List.pairwise_singleton _ _, ?_⟩
      intro r hr r' hr'
      obtain ⟨c, hc, rfl⟩ := List.mem_map.mp hr
      rw [List.mem_singleton.mp hr']
      exact hfresh c hc

/-- The record of a key that is of no kind is left by every event. -/
theorem leaves_of_no_kind {k : String} (h : ∀ kind, Store.isKeyOf kind k = false) (bytes : Bytes)
    (ev : Event) : ev.leaves s k bytes = true := by
  cases ev with
  | list kind =>
      rw [Event.leaves, h kind]
      rfl
  | visit kind a =>
      have hk : k ≠ Store.key kind a.requestId := by
        rintro rfl
        exact nomatch (h kind).symm.trans (Store.isKeyOf_key.mpr rfl)
      rw [Event.leaves, decide_eq_true hk]
      rfl

/-- The events of a poll leave the records that stay. -/
theorem schedule_leaves {st : Store} (hst : st.WellKeyed) {k : String} {bytes : Bytes}
    (hget : st.get? k = some bytes) :
    (schedule st).all (·.leaves s k bytes) = stays s k bytes := by
  rw [stays]
  by_cases hany : (Kind.all.any fun kind => Store.isKeyOf kind k) = true
  · rw [if_pos hany]
    obtain ⟨kind, -, hkey⟩ := List.any_eq_true.mp hany
    obtain ⟨r, rfl⟩ := Store.isKeyOf_iff.mp hkey
    cases hdec : Action.decode bytes with
    | none =>
        -- listing its kind removes it
        refine List.all_eq_false.mpr ⟨.list kind, list_mem_schedule st kind, ?_⟩
        simp [Event.leaves, hkey, hdec]
    | some a =>
        have haction : st.action? kind r = some a := by
          rw [Store.action?, hget]
          exact hdec
        obtain ⟨-, rfl⟩ := hst.of_action? haction
        show _ = s.waits a
        cases hwaits : s.waits a with
        | false =>
            -- the visit to it removes it
            refine List.all_eq_false.mpr ⟨.visit kind a,
              mem_schedule_of_mem_actions (Store.mem_actions_iff.mpr ⟨_, haction⟩), ?_⟩
            simp [Event.leaves, hwaits]
        | true =>
            refine List.all_eq_true.mpr fun ev hev => ?_
            cases ev with
            | list kind' => simp [Event.leaves, hdec]
            | visit kind' b =>
                by_cases hk : Store.key kind a.requestId = Store.key kind' b.requestId
                · obtain ⟨rfl, hr⟩ := Store.key_inj.mp hk
                  have hb := (hst.of_mem_actions (mem_actions_of_mem_schedule hev)).2
                  rw [← hr, haction] at hb
                  rw [Event.leaves, ← Option.some.inj hb, hwaits, Bool.or_true]
                · simp [Event.leaves, hk]
  · rw [if_neg hany]
    refine List.all_eq_true.mpr fun ev _ => leaves_of_no_kind (fun kind => ?_) bytes ev
    rw [Bool.eq_false_iff]
    exact fun hkey => hany (List.any_eq_true.mpr ⟨kind, by cases kind <;> decide, hkey⟩)

end Lapse.Poll
