import Lapse.Proofs.Poll.Ending
import Lapse.Proofs.Poll.Footprint
import Lapse.Proofs.Store

/-!
# The schedule of a poll

What a poll looks at is fixed before it begins.  While the store and the look-up of requests do not
fail, it lists each kind once and visits each action that the store held of that kind at the
beginning: a revert stores bounces only, and those are listed first.  So a poll is a run of a
schedule that is computed from the first store, and a property of polls is shown by induction on
that run, one case for each way in which a record is dealt with.
-/

namespace Lapse.Poll

open World (say)

/-! ## Conditions -/

/-- The calls of a poll other than those of a revert. -/
def Operation.isOwn : Operation → Bool
  | .listActions _ | .removeAction _ _ | .findRequest _ => true
  | _ => false

/-- The failures spare the listing and the removal of actions and the look-up of requests. -/
def Conditions.SparesPoll (s : Conditions) : Prop :=
  ∀ n c why, c.operation.isOwn = true → s.faults n c ≠ some (.fails why)

theorem Conditions.Reliable.sparesPoll {s : Conditions} (hs : s.Reliable) : s.SparesPoll :=
  fun n c why _ => hs n c why

/-- Whether an action has a lifetime, and outlived it. -/
def Conditions.isDue (s : Conditions) (a : Action) : Bool :=
  match a.isDue s.now s.config with
  | .ok due => due
  | .error _ => false

/-- Whether an action has a lifetime, and did not outlive it. -/
def Conditions.waits (s : Conditions) (a : Action) : Bool :=
  match a.isDue s.now s.config with
  | .ok due => !due
  | .error _ => false

/-! ## Events -/

/-- Nothing changed but the log and the calls made, and no call stored an action. -/
structure Quiet (w w' : World) : Prop where
  store : w'.store = w.store
  cluster : w'.cluster = w.cluster
  saved : w'.saved = w.saved
  minted : w'.minted = w.minted

namespace Quiet

theorem refl (w : World) : Quiet w w := ⟨rfl, rfl, rfl, rfl⟩

theorem trans {w₁ w₂ w₃ : World} (h : Quiet w₁ w₂) (h' : Quiet w₂ w₃) : Quiet w₁ w₃ :=
  ⟨h'.store.trans h.store, h'.cluster.trans h.cluster, h'.saved.trans h.saved,
    h'.minted.trans h.minted⟩

theorem note (w : World) {c : Call} (fault : Option Fault) (h : Made.saved? ⟨c, fault⟩ = none) :
    Quiet w (w.note c fault) := by
  refine ⟨rfl, rfl, ?_, rfl⟩
  rw [World.saved_note, h]
  exact List.append_nil w.saved

theorem logged (w : World) (lines : List LogLine) : Quiet w (w.logged lines) :=
  ⟨rfl, rfl, rfl, rfl⟩

end Quiet

/-- A world without the record of a kind for a request. -/
def World.removed (w : World) (kind : Kind) (r : String) : World :=
  { w with store := w.store.remove kind r }

/-- A world without the records of a kind that read as no action. -/
def World.healed (w : World) (kind : Kind) : World := { w with store := w.store.healed kind }

theorem Quiet.removed {w w' : World} (h : Quiet w w') (kind : Kind) (r : String) :
    Quiet (w.removed kind r) (w'.removed kind r) :=
  ⟨congrArg (fun st => Store.remove st kind r) h.store, h.cluster, h.saved, h.minted⟩

/-- What a poll does at once: it lists a kind, or it visits an action found under a kind. -/
inductive Event where
  | list (kind : Kind)
  | visit (kind : Kind) (a : Action)

/-- The kind that an event is about. -/
def Event.kind : Event → Kind
  | .list kind => kind
  | .visit kind _ => kind

/-- The ways in which an event passes. -/
inductive Happens (s : Conditions) : Event → World → World → Prop
  | listed {kind w w'} (quiet : Quiet (w.healed kind) w') : Happens s (.list kind) w w'
  | waiting {kind a w w'} (due : a.isDue s.now s.config = .ok false) (quiet : Quiet w w') :
      Happens s (.visit kind a) w w'
  | malformed {kind a w w' why} (due : a.isDue s.now s.config = .error why)
      (quiet : Quiet (w.removed kind a.requestId) w') : Happens s (.visit kind a) w w'
  | missing {kind a w w'} (due : a.isDue s.now s.config = .ok true)
      (absent : w.cluster.requests.get? a.requestId = none)
      (quiet : Quiet (w.removed kind a.requestId) w') : Happens s (.visit kind a) w w'
  | reverted {kind a w w₁ w' lifetime entry} (due : a.isDue s.now s.config = .ok true)
      (lives : a.lifetime s.config = .ok lifetime)
      (present : w.cluster.requests.get? a.requestId = some entry) (before : Quiet w w₁)
      (quiet : Quiet ((after (revert s a entry (a.expiryMessage lifetime)).run w₁).removed kind
        a.requestId) w') : Happens s (.visit kind a) w w'

/-- How a visit to a record ends that is not cut short. -/
def Conditions.ending (s : Conditions) (a : Action) (w : World) : Ending :=
  match a.standing s.now s.config with
  | .malformed _ => .malformed
  | .waiting => .waiting
  | .due lifetime =>
    match w.cluster.requests.get? a.requestId with
    | none => .missing
    | some entry =>
      .ofAnswer (answer (revert s a entry (a.expiryMessage lifetime)).run
        (after (findRequest s a.requestId).run w))

/-- Events one after another. -/
inductive Run (s : Conditions) : List Event → World → World → Prop
  | done {w} : Run s [] w w
  | next {e rest w w₁ w'} (first : Happens s e w w₁) (others : Run s rest w₁ w') :
      Run s (e :: rest) w w'

/-- Visits to records of one kind one after another, and how each ends. -/
inductive Ends (s : Conditions) (kind : Kind) : List (Action × Ending) → World → World → Prop
  | done {w} : Ends s kind [] w w
  | next {a rest w w₁ w'} (first : Happens s (.visit kind a) w w₁)
      (others : Ends s kind rest w₁ w') : Ends s kind ((a, s.ending a w) :: rest) w w'

/-- What a poll does for some kinds, by a store. -/
def scheduleOf (st : Store) (kinds : List Kind) : List Event :=
  kinds.flatMap fun kind => .list kind :: (st.actions kind).map (.visit kind)

/-- What a poll does, by the store at its beginning. -/
def schedule (st : Store) : List Event := scheduleOf st Kind.all

namespace Run

variable {s : Conditions} {es es' : List Event} {w w₁ w' : World}

theorem append (h : Run s es w w₁) (h' : Run s es' w₁ w') : Run s (es ++ es') w w' := by
  induction h with
  | done => exact h'
  | next first _ ih => exact .next first (ih h')

theorem split (h : Run s (es ++ es') w w') : ∃ w₁, Run s es w w₁ ∧ Run s es' w₁ w' := by
  induction es generalizing w with
  | nil => exact ⟨w, .done, h⟩
  | cons e rest ih =>
      cases h with
      | next first others =>
          obtain ⟨w₁, hrest, hrun⟩ := ih others
          exact ⟨w₁, .next first hrest, hrun⟩

/-- **INDUCTION**: what holds at the beginning and is passed on by each event holds at the end. -/
theorem induct (h : Run s es w w') (P : List Event → World → Prop) (start : P [] w)
    (next : ∀ done e rest w₁ w₂, es = done ++ e :: rest → P done w₁ → Happens s e w₁ w₂ →
      P (done ++ [e]) w₂) : P es w' := by
  -- the events before the first one go into the statement
  have key : ∀ {rest w₁ w'}, Run s rest w₁ w' → ∀ done, es = done ++ rest → P done w₁ →
      P es w' := by
    intro rest w₁ w' hrun
    induction hrun with
    | done =>
        intro done hes hP
        rwa [hes, List.append_nil]
    | next first _ ih =>
        intro done hes hP
        refine ih (done ++ [_]) (by rw [hes, List.append_assoc]; rfl) ?_
        exact next done _ _ _ _ hes hP first
  exact key h [] rfl start

end Run

theorem Ends.run {s : Conditions} {kind : Kind} {es : List (Action × Ending)} {w w' : World}
    (h : Ends s kind es w w') : Run s (es.map (Event.visit kind ∘ Prod.fst)) w w' := by
  induction h with
  | done => exact .done
  | next first _ ih => exact .next first ih

/-! ## Every visit is an event -/

variable {s : Conditions}

theorem lifetime_of_isDue {a : Action} {now : Int64} {c : Config} {due : Bool}
    (h : a.isDue now c = .ok due) : ∃ lifetime, a.lifetime c = .ok lifetime := by
  rw [Action.isDue] at h
  cases hl : a.lifetime c with
  | ok lifetime => exact ⟨lifetime, rfl⟩
  | error why =>
      rw [hl] at h
      exact nomatch h

theorem standing_of_isDue {a : Action} {now : Int64} {c : Config} {lifetime : UInt64}
    (hl : a.lifetime c = .ok lifetime) (h : a.isDue now c = .ok true) :
    a.standing now c = .due lifetime := by
  rw [Action.standing, hl, h]

theorem standing_of_isDue_false {a : Action} {now : Int64} {c : Config} {lifetime : UInt64}
    (hl : a.lifetime c = .ok lifetime) (h : a.isDue now c = .ok false) :
    a.standing now c = .waiting := by
  rw [Action.standing, hl, h]

theorem standing_of_error {a : Action} {now : Int64} {c : Config} {why : Failure}
    (h : a.isDue now c = .error why) : a.standing now c = .malformed why := by
  rw [Action.isDue] at h
  rw [Action.standing, Action.isDue]
  cases hl : a.lifetime c with
  | ok lifetime =>
      rw [hl] at h
      exact nomatch h
  | error why' =>
      rw [hl] at h
      rw [Except.error.inj h]

theorem of_standing_due {a : Action} {now : Int64} {c : Config} {lifetime : UInt64}
    (h : a.standing now c = .due lifetime) :
    a.isDue now c = .ok true ∧ a.lifetime c = .ok lifetime := by
  rcases hdue : a.isDue now c with why | due
  · rw [standing_of_error hdue] at h
    exact nomatch h
  · obtain ⟨lifetime', hl⟩ := lifetime_of_isDue hdue
    cases due with
    | false =>
        rw [standing_of_isDue_false hl hdue] at h
        exact nomatch h
    | true =>
        rw [standing_of_isDue hl hdue] at h
        rw [hl, Action.Standing.due.inj h]
        exact ⟨rfl, rfl⟩

theorem run_removeAction (hs : s.SparesPoll) (kind : Kind) (r : String) (w : World) :
    answer (removeAction s kind r).run w = .ok () ∧
      Quiet (w.removed kind r) (after (removeAction s kind r).run w) := by
  have hok : ∀ why, s.faults w.calls ⟨none, .removeAction kind r⟩ ≠ some (.fails why) :=
    fun why => hs _ _ why rfl
  unfold removeAction
  rw [(run_call_ok hok _).1, (run_call_ok hok _).2]
  exact ⟨rfl, (Quiet.note w _ rfl).removed kind r⟩

theorem run_findRequest (hs : s.SparesPoll) (r : String) (w : World) :
    answer (findRequest s r).run w = .ok (w.cluster.requests.get? r) ∧
      Quiet w (after (findRequest s r).run w) := by
  have hok : ∀ why, s.faults w.calls ⟨none, .findRequest r⟩ ≠ some (.fails why) :=
    fun why => hs _ _ why rfl
  unfold findRequest
  rw [(run_call_ok hok _).1, (run_call_ok hok _).2]
  exact ⟨rfl, Quiet.note w _ rfl⟩

theorem run_listActions (hs : s.SparesPoll) (kind : Kind) (w : World) :
    answer (listActions s kind).run w = .ok (w.store.actions kind) ∧
      Quiet (w.healed kind) (after (listActions s kind).run w) := by
  have hok : ∀ why, s.faults w.calls ⟨none, .listActions kind⟩ ≠ some (.fails why) :=
    fun why => hs _ _ why rfl
  unfold listActions
  rw [(run_call_ok hok _).1, (run_call_ok hok _).2]
  refine ⟨rfl, rfl, rfl, ?_, rfl⟩
  exact (Quiet.note w _ rfl).saved

/-- Settling an action is reverting it, and a line in the log. -/
theorem settle_spec (a : Action) (lifetime : UInt64) (entry : Request.Entry) (t : Tally)
    (w : World) :
    Quiet (after (revert s a entry (a.expiryMessage lifetime)).run w)
        (after (settle s a lifetime entry t) w) ∧
      (answer (settle s a lifetime entry t) w).kind = t.kind ∧
      (answer (settle s a lifetime entry t) w).error = t.error := by
  unfold settle
  dsimp only
  rw [after_bind, answer_bind]
  rcases answer (revert s a entry (a.expiryMessage lifetime)).run w with why | outcome
  · exact ⟨Quiet.logged _ _, rfl, rfl⟩
  · cases outcome with
    | applied => exact ⟨Quiet.logged _ _, rfl, rfl⟩
    | skipped why => exact ⟨Quiet.logged _ _, rfl, rfl⟩

/-- Settling an action counts how reverting it ended, and no removal. -/
theorem settle_counts (a : Action) (lifetime : UInt64) (entry : Request.Entry) (t : Tally)
    (w : World) :
    answer (settle s a lifetime entry { t with examined := t.examined + 1 }) w = t.countCut
      (some (.ofAnswer (answer (revert s a entry (a.expiryMessage lifetime)).run w))) := by
  unfold settle
  dsimp only
  rw [answer_bind]
  rcases answer (revert s a entry (a.expiryMessage lifetime)).run w with why | outcome
  · rfl
  · cases outcome with
    | applied => rfl
    | skipped why => rfl

/-- How a visit to a due action ends. -/
def discard (s : Conditions) (r : String) (t : Tally) : StateM World (Tally × Option Failure) := do
  match ← (removeAction s t.kind r).run with
  | .error why => return (t, some why)
  | .ok () => return ({ t with deleted := t.deleted + 1 }, none)

theorem discard_spec (hs : s.SparesPoll) (r : String) (t : Tally) (w : World) :
    Quiet (w.removed t.kind r) (after (discard s r t) w) ∧
      answer (discard s r t) w = ({ t with deleted := t.deleted + 1 }, none) := by
  obtain ⟨hok, hquiet⟩ := run_removeAction hs t.kind r w
  unfold discard
  rw [after_bind, answer_bind, hok]
  exact ⟨hquiet, rfl⟩

/-- While its own calls do not fail, visiting a record is one of the events, counts how it ended, and
holds up nothing. -/
theorem visit_happens (hs : s.SparesPoll) (a : Action) (t : Tally) (w : World) :
    Happens s (.visit t.kind a) w (after (visit s a t) w) ∧
      answer (visit s a t) w = (t.count (s.ending a w), none) := by
  unfold visit Conditions.ending
  dsimp only
  rcases hdue : a.isDue s.now s.config with why | due
  · have hl : a.standing s.now s.config = .malformed why := standing_of_error hdue
    rw [hl]
    dsimp only
    obtain ⟨hok, hquiet⟩ := run_removeAction hs t.kind a.requestId
      (w.logged [⟨.warn, "discarding malformed " ++ a.describe⟩])
    rw [after_bind, answer_bind, after_say, after_bind, answer_bind, hok]
    exact ⟨.malformed hdue (((Quiet.logged w _).removed _ _).trans hquiet), rfl⟩
  · obtain ⟨lifetime, hl⟩ := lifetime_of_isDue hdue
    cases due with
    | false =>
        rw [standing_of_isDue_false hl hdue]
        exact ⟨.waiting hdue (Quiet.refl w), rfl⟩
    | true =>
        rw [standing_of_isDue hl hdue]
        dsimp only
        obtain ⟨hfind, hquiet⟩ := run_findRequest hs a.requestId w
        rw [after_bind, answer_bind, hfind]
        generalize after (findRequest s a.requestId).run w = w₁ at *
        rcases hget : w.cluster.requests.get? a.requestId with _ | entry
        · obtain ⟨hend, hanswer⟩ := discard_spec hs a.requestId
            { t with examined := t.examined + 1, missingRequest := t.missingRequest + 1 }
            (w₁.logged [⟨.warn, "request " ++ a.requestId ++ " not present, discarding " ++
              a.describe⟩])
          refine ⟨.missing hdue hget ?_, hanswer⟩
          exact ((hquiet.trans (Quiet.logged w₁ _)).removed t.kind a.requestId).trans hend
        · obtain ⟨hsettle, hkind, -⟩ :=
            settle_spec a lifetime entry { t with examined := t.examined + 1 } w₁ (s := s)
          have hcounts := settle_counts a lifetime entry t w₁ (s := s)
          obtain ⟨hend, hanswer⟩ := discard_spec hs a.requestId
            (answer (settle s a lifetime entry { t with examined := t.examined + 1 }) w₁)
            (after (settle s a lifetime entry { t with examined := t.examined + 1 }) w₁)
          refine ⟨.reverted hdue hl hget hquiet ?_, ?_⟩
          · rw [hkind] at hend
            exact (hsettle.removed t.kind a.requestId).trans hend
          · refine hanswer.trans (congrArg (·, none) ?_)
            rw [hcounts]
            exact Tally.countCut_removed (Ending.due?_ofAnswer _) t

/-- Records visited one after another are a run of visits, and each counts how it ended. -/
theorem sweep_ends (hs : s.SparesPoll) (actions : List Action) (t : Tally) (w : World) :
    ∃ es, es.map Prod.fst = actions ∧ Ends s t.kind es w (after (sweep s actions t) w) ∧
      answer (sweep s actions t) w = (es.map Prod.snd).foldl Tally.count t := by
  induction actions generalizing t w with
  | nil => exact ⟨[], rfl, .done, rfl⟩
  | cons a rest ih =>
      obtain ⟨hvisit, hanswer⟩ := visit_happens hs a t w
      obtain ⟨es, hes, hends, htally⟩ := ih (t.count (s.ending a w)) (after (visit s a t) w)
      rw [Tally.count_kind] at hends
      rw [sweep, after_bind, answer_bind, hanswer]
      exact ⟨(a, s.ending a w) :: es, congrArg (a :: ·) hes, .next hvisit hends, htally⟩

/-- One kind: it is listed, each action found is visited, and the tally says how these visits ended. -/
theorem passOf_ends (hs : s.SparesPoll) (kind : Kind) (w : World) :
    ∃ es w₁, es.map Prod.fst = w.store.actions kind ∧ Quiet (w.healed kind) w₁ ∧
      Ends s kind es w₁ (after (passOf s kind) w) ∧
      answer (passOf s kind) w = .ofEndings kind (es.map Prod.snd) := by
  obtain ⟨hok, hquiet⟩ := run_listActions hs kind w
  obtain ⟨es, hes, hends, htally⟩ :=
    sweep_ends hs (w.store.actions kind) { kind } (after (listActions s kind).run w)
  unfold passOf
  rw [after_bind, answer_bind, hok]
  exact ⟨es, _, hes, hquiet, hends, htally.trans (Tally.foldl_count kind _)⟩

theorem passOf_run (hs : s.SparesPoll) (kind : Kind) (w : World) :
    Run s (scheduleOf w.store [kind]) w (after (passOf s kind) w) ∧
      (answer (passOf s kind) w).kind = kind ∧ (answer (passOf s kind) w).error = none := by
  obtain ⟨es, w₁, hes, hlisted, hends, htally⟩ := passOf_ends hs kind w
  rw [htally, scheduleOf, List.flatMap_singleton, ← hes, List.map_map]
  exact ⟨.next (.listed hlisted) hends.run, rfl, rfl⟩

/-! ## What is listed later is not touched before -/

/-- Reverts touch no record of a kind other than bounces. -/
theorem revertFrame_records {kind : Kind} (hk : kind ≠ .bounce) (a : Action)
    (entry : Request.Entry) : RevertFrame s a entry fun w w' =>
      ∀ r, w'.store.get? (Store.key kind r) = w.store.get? (Store.key kind r) where
  refl _ _ := rfl
  trans h h' r := (h' r).trans (h r)
  noted _ _ _ _ _ := rfl
  minted _ _ _ _ := rfl
  logged _ _ _ := rfl
  cleanupRemoved _ _ _ _ := rfl
  updatesRemoved _ _ _ _ _ _ := rfl
  pendingRemoved _ _ _ _ := rfl
  enqueued _ _ _ _ := rfl
  cleanupCreated _ _ _ _ _ := rfl
  bounced _ _ _ := rfl
  stored w during deployId id fault _ r := by
    show (w.store.save _).get? _ = _
    rw [Store.get?_save, if_neg]
    exact fun h => hk (Store.key_inj.mp h).1
  updated _ _ _ _ _ _ _ _ _ := rfl
  unpaused _ _ _ _ _ := rfl
  notified _ _ _ _ _ := rfl

/-- An event of another kind leaves the records of a kind other than bounces. -/
theorem Happens.get?_key {e : Event} {w w' : World} (h : Happens s e w w') {kind : Kind}
    (hb : kind ≠ .bounce) (hk : kind ≠ e.kind) (r : String) :
    w'.store.get? (Store.key kind r) = w.store.get? (Store.key kind r) := by
  have hremoved : ∀ (w : World) r', (w.removed e.kind r').store.get? (Store.key kind r) =
      w.store.get? (Store.key kind r) := by
    intro w r'
    show (w.store.remove e.kind r').get? _ = _
    rw [Store.get?_remove, if_neg fun h => hk (Store.key_inj.mp h).1]
  cases h with
  | listed quiet =>
      rw [quiet.store]
      exact Store.get?_healed_key _ hk r
  | waiting due quiet => rw [quiet.store]
  | malformed due quiet => rw [quiet.store]; exact hremoved w _
  | missing due absent quiet => rw [quiet.store]; exact hremoved w _
  | reverted due lives present before quiet =>
      rw [quiet.store]
      refine (hremoved _ _).trans ?_
      rw [(revertFrame_records hb _ _).revert _ _ r, before.store]

theorem Run.actions_eq {es : List Event} {w w' : World} (h : Run s es w w') {kind : Kind}
    (hb : kind ≠ .bounce) (hk : ∀ e ∈ es, kind ≠ e.kind) :
    w'.store.actions kind = w.store.actions kind := by
  induction h with
  | done => rfl
  | next first _ ih =>
      rw [ih fun e he => hk e (List.mem_cons_of_mem _ he)]
      exact Store.actions_congr (first.get?_key hb (hk _ List.mem_cons_self))

theorem kind_of_mem_events {st : Store} {kind : Kind} {e : Event}
    (h : e ∈ Event.list kind :: (st.actions kind).map (Event.visit kind)) : e.kind = kind := by
  rcases List.mem_cons.mp h with rfl | he
  · rfl
  · obtain ⟨a, -, rfl⟩ := List.mem_map.mp he
    rfl

theorem kind_of_mem_scheduleOf {st : Store} {kinds : List Kind} {e : Event}
    (h : e ∈ scheduleOf st kinds) : e.kind ∈ kinds := by
  obtain ⟨kind, hkind, he⟩ := List.mem_flatMap.mp h
  rw [kind_of_mem_events he]
  exact hkind

theorem mem_actions_of_mem_schedule {st : Store} {kind : Kind} {a : Action}
    (h : .visit kind a ∈ schedule st) : a ∈ st.actions kind := by
  obtain ⟨kind', -, he⟩ := List.mem_flatMap.mp h
  rcases List.mem_cons.mp he with heq | he
  · exact nomatch heq
  · obtain ⟨b, hb, heq⟩ := List.mem_map.mp he
    cases heq
    exact hb

theorem mem_schedule_of_mem_actions {st : Store} {kind : Kind} {a : Action}
    (h : a ∈ st.actions kind) : .visit kind a ∈ schedule st :=
  List.mem_flatMap.mpr ⟨kind, by cases kind <;> decide,
    List.mem_cons_of_mem _ (List.mem_map.mpr ⟨a, h, rfl⟩)⟩

theorem list_mem_schedule (st : Store) (kind : Kind) : .list kind ∈ schedule st :=
  List.mem_flatMap.mpr ⟨kind, by cases kind <;> decide, List.mem_cons_self⟩

/-- In the schedule bounces come first, and no request comes twice under one kind. -/
theorem schedule_pairwise {st : Store} (hst : st.WellKeyed) :
    (schedule st).Pairwise fun e e' => (e'.kind = .bounce → e.kind = .bounce) ∧
      ∀ kind a b, e = .visit kind a → e' = .visit kind b → a.requestId ≠ b.requestId := by
  rw [schedule, scheduleOf, List.pairwise_flatMap]
  constructor
  · -- within a kind its actions are for different requests
    intro kind _
    rw [List.pairwise_cons]
    constructor
    · intro e he
      obtain ⟨a, -, rfl⟩ := List.mem_map.mp he
      exact ⟨fun h => h, fun _ _ _ h => nomatch h⟩
    · rw [List.pairwise_map]
      refine (hst.actions_pairwise kind).imp fun {a b} hne => ⟨fun h => h, ?_⟩
      rintro _ _ _ heq heq'
      cases heq
      cases heq'
      exact hne
  · -- no kind comes twice, and bounces come first
    have hkinds : Kind.all.Pairwise fun k k' => k ≠ k' ∧ k' ≠ .bounce := by decide
    refine hkinds.imp fun {k k'} hk e he e' he' => ?_
    have hek := kind_of_mem_events he
    have hek' := kind_of_mem_events he'
    refine ⟨fun hb => absurd (hek'.symm.trans hb) hk.2, ?_⟩
    rintro kind a b rfl rfl
    exact absurd (hek.symm.trans hek') hk.1

/-- Kinds that come once each and after bounces are dealt with as the first store has them. -/
theorem passes_run (hs : s.SparesPoll) {kinds : List Kind}
    (hkinds : kinds.Pairwise fun k k' => k' ≠ k ∧ k' ≠ .bounce) (w : World) :
    Run s (scheduleOf w.store kinds) w (after (passes s kinds) w) ∧
      (answer (passes s kinds) w).map (·.kind) = kinds ∧
      ∀ t ∈ answer (passes s kinds) w, t.error = none := by
  induction kinds generalizing w with
  | nil => exact ⟨.done, rfl, fun t ht => nomatch ht⟩
  | cons kind rest ih =>
      obtain ⟨hlater, hrest⟩ := List.pairwise_cons.mp hkinds
      obtain ⟨hrun, hkind, herror⟩ := passOf_run hs kind w
      obtain ⟨hruns, hmap, herrors⟩ := ih hrest (after (passOf s kind) w)
      -- the kinds that are left are listed as the first store has them
      have hschedule : scheduleOf (after (passOf s kind) w).store rest =
          scheduleOf w.store rest := by
        refine List.flatMap_congr fun k hk => ?_
        rw [hrun.actions_eq (hlater k hk).2]
        intro e he
        rw [List.mem_singleton.mp (kind_of_mem_scheduleOf he)]
        exact (hlater k hk).1
      rw [hschedule] at hruns
      rw [passes, after_bind, answer_bind, after_bind, answer_bind]
      refine ⟨?_, ?_, ?_⟩
      · rw [scheduleOf, List.flatMap_cons]
        rw [scheduleOf, List.flatMap_singleton] at hrun
        exact hrun.append hruns
      · exact congrArg₂ List.cons hkind hmap
      · intro t ht
        rcases List.mem_cons.mp ht with rfl | ht
        · exact herror
        · exact herrors t ht

/-- **SCHEDULE**: while its own calls do not fail, a poll is a run of the schedule of the store at
its beginning, and reports every kind, in order and without an error. -/
theorem poll_run (hs : s.SparesPoll) (w : World) :
    Run s (schedule w.store) w (after (poll s) w) ∧
      (answer (poll s) w).kinds.map (·.kind) = Kind.all ∧
      ∀ t ∈ (answer (poll s) w).kinds, t.error = none :=
  passes_run hs (by decide) w

end Lapse.Poll
