import Lapse.Proofs.Action
import Lapse.Proofs.Poll.Apart
import Lapse.Proofs.Poll.Calls

/-!
# What a report accounts for

Whatever calls fail, the tally of a kind adds up.  A visit that is not cut short leaves its record
or removes it, and counts it once either way; a visit that is cut short has counted its record as
examined, and perhaps as dealt with, but not as removed.  So a whole pass balances, and a pass that
was cut short is off by the one record at which that happened.  What cuts a pass short is a failed
call of the poll itself, never one of a revert, and the records that come later are not touched.
-/

namespace Lapse.Poll

open World (say)

variable {s : Conditions} {kind : Kind} {w w₁ w₂ w' : World} {α : Type}

/-! ## Counts and calls -/

/-- How many records were dealt with. -/
def Tally.terminal (t : Tally) : UInt32 :=
  t.applied + t.skipped + t.failed + t.missingRequest + t.malformed

/-- Every record that was examined was left or dealt with, and those dealt with were removed. -/
structure Tally.Balanced (t : Tally) : Prop where
  examined : t.examined = t.notDue + t.terminal
  deleted : t.deleted = t.terminal

/-- One record was examined and not removed, and perhaps dealt with. -/
structure Tally.Cut (t : Tally) : Prop where
  examined : t.examined = t.notDue + t.deleted + 1
  terminal : t.terminal = t.deleted ∨ t.terminal = t.deleted + 1

/-- The tally of so many visits, none of which was cut short: it says how each of them ended. -/
def Tally.OfWhole (t : Tally) (n : Nat) : Prop :=
  ∃ es : List Ending, es.length = n ∧ t = ofEndings t.kind es

/-- The tally of so many visits and one more that was cut short, perhaps when its record was dealt
with. -/
def Tally.OfCut (t : Tally) (n : Nat) : Prop :=
  ∃ (es : List Ending) (reached : Option Ending), es.length = n ∧
    (∀ e ∈ reached, e.due? = some true) ∧
    t = { (ofEndings t.kind es).countCut reached with error := t.error }

/-- The failure of a call that the poll itself made. -/
def Made.broken? (m : Made) : Option Failure :=
  if m.call.operation.isOwn then
    match m.fault with
    | some (.fails why) => some why
    | _ => none
  else none

/-- The calls that were made since a world. -/
def World.since (w' w : World) : List Made := w'.trace.drop w.trace.length

/-- A call of a pass after the listing: of the poll itself, or else of a revert. -/
def Made.OfVisit (m : Made) : Prop :=
  (m.call.operation.isOwn = true ↔ m.call.during = none) ∧
    ∀ kind, m.call.operation ≠ .listActions kind

/-- The failure of a step. -/
def refusal : Except Failure α → Option Failure
  | .ok _ => none
  | .error why => some why

theorem Tally.balanced_ofEndings (kind : Kind) (es : List Ending) :
    (ofEndings kind es).Balanced where
  examined := by
    simp only [ofEndings, terminal, ← UInt32.ofNat_add]
    rw [← Ending.countP_ne_waiting, ← Ending.length_eq_count_add]
  deleted := by
    simp only [ofEndings, terminal, ← UInt32.ofNat_add]
    rw [← Ending.countP_ne_waiting]

theorem Tally.terminal_count {e : Ending} (he : e.due? = some true) (t : Tally) :
    (t.count e).terminal = t.terminal + 1 := by
  cases e with
  | waiting => exact nomatch he
  | malformed => exact nomatch he
  | missing | applied | skipped | failed =>
      simp only [count, terminal]
      ac_rfl

theorem Tally.notDue_count {e : Ending} (he : e.due? = some true) (t : Tally) :
    (t.count e).notDue = t.notDue := by
  cases e with
  | waiting => exact nomatch he
  | malformed | missing | applied | skipped | failed => rfl

theorem Tally.count_examined (t : Tally) (e : Ending) : (t.count e).examined = t.examined + 1 := by
  cases e <;> rfl

theorem Tally.countCut_examined (t : Tally) (reached : Option Ending) :
    (t.countCut reached).examined = t.examined + 1 := by
  cases reached with
  | none => rfl
  | some e => exact t.count_examined e

/-- A visit that is cut short unbalances a tally by one record. -/
theorem Tally.Balanced.cut {t : Tally} (h : t.Balanced) {reached : Option Ending}
    (hreached : ∀ e ∈ reached, e.due? = some true) : (t.countCut reached).Cut := by
  have hexamined : (t.countCut reached).examined = t.notDue + t.deleted + 1 := by
    rw [t.countCut_examined, h.examined, h.deleted]
  cases reached with
  | none => exact ⟨hexamined, .inl h.deleted.symm⟩
  | some e =>
      have he := hreached e rfl
      refine ⟨?_, .inr ?_⟩
      · show _ = (t.count e).notDue + t.deleted + 1
        rw [hexamined, t.notDue_count he]
      · show (t.count e).terminal = t.deleted + 1
        rw [t.terminal_count he, h.deleted]

theorem Tally.OfWhole.balanced {t : Tally} {n : Nat} (h : t.OfWhole n) :
    t.Balanced ∧ t.examined = .ofNat n := by
  obtain ⟨es, rfl, ht⟩ := h
  rw [ht]
  exact ⟨balanced_ofEndings _ es, rfl⟩

theorem Tally.OfCut.cut {t : Tally} {n : Nat} (h : t.OfCut n) :
    t.Cut ∧ t.examined = .ofNat (n + 1) := by
  obtain ⟨es, reached, rfl, hreached, ht⟩ := h
  obtain ⟨hexamined, hterminal⟩ := (balanced_ofEndings t.kind es).cut hreached
  rw [ht]
  refine ⟨⟨hexamined, hterminal⟩, ?_⟩
  show ((ofEndings t.kind es).countCut reached).examined = _
  rw [countCut_examined, UInt32.ofNat_add]
  rfl

theorem Made.broken?_isSome_iff {m : Made} :
    m.broken?.isSome = true ↔
      m.call.operation.isOwn = true ∧ ∃ why, m.fault = some (.fails why) := by
  rw [broken?]
  cases m.call.operation.isOwn with
  | false => simp
  | true =>
      rcases m.fault with _ | fault
      · simp
      · cases fault with
        | fails why => simp
        | present => simp

theorem Made.ofVisit_of_within {m : Made} {r : String} (h : m.call.Within r) :
    m.OfVisit ∧ m.broken? = none := by
  obtain ⟨hduring, hown⟩ := h
  refine ⟨⟨?_, fun kind hop => ?_⟩, ?_⟩
  · rw [hduring, hown]
    simp
  · rw [hop] at hown
    exact nomatch hown
  · rw [broken?, hown]
    rfl

/-- No call of a revert breaks a pass. -/
theorem findSome?_broken?_within {made : List Made} {r : String}
    (h : ∀ m ∈ made, m.call.Within r) : made.findSome? Made.broken? = none :=
  List.findSome?_eq_none_iff.mpr fun m hm => (Made.ofVisit_of_within (h m hm)).2

/-- A call of the poll itself that works unless it meets a fault is one call of the trace, and it
breaks the pass if it fails. -/
theorem call_made {op : Operation} (hown : op.isOwn = true) {act : Step α}
    (hok : ∀ w, refusal (answer act.run w) = none)
    (htrace : ∀ w, (after act.run w).trace = w.trace) (w : World) :
    ∃ m : Made, m.call = ⟨none, op⟩ ∧
      (after (call s none op act).run w).trace = w.trace ++ [m] ∧
      m.broken? = refusal (answer (call s none op act).run w) := by
  refine ⟨⟨⟨none, op⟩, s.faults w.calls ⟨none, op⟩⟩, rfl, ?_⟩
  rcases run_call s none op (w := w) with ⟨why, hwhy, hfails⟩ | ⟨hnone, hrun⟩
  · rw [(hfails act).1, (hfails act).2, hwhy]
    exact ⟨rfl, if_pos hown⟩
  · rw [(hrun act).1, (hrun act).2, hok, htrace]
    refine ⟨rfl, ?_⟩
    rw [Made.broken?, if_pos hown]
    split
    · next why hwhy => exact absurd hwhy (hnone why)
    · rfl

theorem removeAction_made (kind : Kind) (r : String) (w : World) :
    ∃ m : Made, m.call = ⟨none, .removeAction kind r⟩ ∧
      (after (removeAction s kind r).run w).trace = w.trace ++ [m] ∧
      m.broken? = refusal (answer (removeAction s kind r).run w) :=
  call_made rfl (fun _ => rfl) (fun _ => rfl) w

theorem findRequest_made (r : String) (w : World) :
    ∃ m : Made, m.call = ⟨none, .findRequest r⟩ ∧
      (after (findRequest s r).run w).trace = w.trace ++ [m] ∧
      m.broken? = refusal (answer (findRequest s r).run w) :=
  call_made rfl (fun _ => rfl) (fun _ => rfl) w

theorem listActions_made (kind : Kind) (w : World) :
    ∃ m : Made, m.call = ⟨none, .listActions kind⟩ ∧
      (after (listActions s kind).run w).trace = w.trace ++ [m] ∧
      m.broken? = refusal (answer (listActions s kind).run w) :=
  call_made rfl (fun _ => rfl) (fun _ => rfl) w

theorem Made.ofVisit_removeAction {m : Made} {r : String}
    (h : m.call = ⟨none, .removeAction kind r⟩) : m.OfVisit := by
  rw [OfVisit, h]
  exact ⟨⟨fun _ => rfl, fun _ => rfl⟩, nofun⟩

theorem Made.ofVisit_findRequest {m : Made} {r : String}
    (h : m.call = ⟨none, .findRequest r⟩) : m.OfVisit := by
  rw [OfVisit, h]
  exact ⟨⟨fun _ => rfl, fun _ => rfl⟩, nofun⟩

/-! ## One visit -/

/-- What a visit does to a tally, by the failure that cuts it short. -/
inductive Counted (t t' : Tally) : Option Failure → Prop
  | ended (e : Ending) (tally : t' = t.count e) : Counted t t' none
  | cut {why} (reached : Option Ending) (due : ∀ e ∈ reached, e.due? = some true)
      (tally : t' = t.countCut reached) : Counted t t' (some why)

/-- What a visit answers, and the calls that it makes. -/
structure Examined (t : Tally) (res : Tally × Option Failure) (w w' : World) : Prop where
  counted : Counted t res.1 res.2
  calls : ∃ made, w'.trace = w.trace ++ made ∧ (∀ m ∈ made, m.OfVisit) ∧
    made.findSome? Made.broken? = res.2

/-- Settling an action makes calls of its revert only. -/
theorem settle_made (a : Action) (lifetime : UInt64) (entry : Request.Entry) (t : Tally)
    (w : World) : ∃ made, (after (settle s a lifetime entry t) w).trace = w.trace ++ made ∧
      ∀ m ∈ made, m.call.Within a.requestId := by
  have hcalls := revert_asks s a entry (a.expiryMessage lifetime) w
  unfold settle
  dsimp only
  rw [after_bind]
  rcases answer (revert s a entry (a.expiryMessage lifetime)).run w with why | outcome
  · exact hcalls
  · cases outcome with
    | applied => exact hcalls
    | skipped why => exact hcalls

/-- A visit to a due action ends with the removal of its record. -/
theorem discard_examined {t : Tally} {e : Ending} {v : World} {made : List Made} (r : String)
    (he : e.due? = some true) (htrace : v.trace = w.trace ++ made)
    (hmade : ∀ m ∈ made, m.OfVisit) (hnone : made.findSome? Made.broken? = none) :
    Examined t (answer (discard s r (t.countCut (some e))) v) w
      (after (discard s r (t.countCut (some e))) v) := by
  generalize hu : t.countCut (some e) = u
  obtain ⟨m, hcall, hremoved, hbroken⟩ := removeAction_made (s := s) u.kind r v
  have hcalls : ∀ res, refusal (answer (removeAction s u.kind r).run v) = res →
      ∃ made', (after (removeAction s u.kind r).run v).trace = w.trace ++ made' ∧
        (∀ m ∈ made', m.OfVisit) ∧ made'.findSome? Made.broken? = res := by
    intro res hres
    refine ⟨made ++ [m], by rw [hremoved, htrace, List.append_assoc], fun m' hm' => ?_, ?_⟩
    · rcases List.mem_append.mp hm' with hm' | hm'
      · exact hmade m' hm'
      · rw [List.mem_singleton.mp hm']
        exact Made.ofVisit_removeAction hcall
    · rw [List.findSome?_append, hnone, Option.none_or, List.findSome?_singleton, hbroken, hres]
  unfold discard
  rw [after_bind, answer_bind]
  rcases hanswer : answer (removeAction s u.kind r).run v with why | _
  · refine ⟨?_, hcalls _ (by rw [hanswer]; rfl)⟩
    exact .cut (some e) (fun _ h => Option.some.inj h ▸ he) hu.symm
  · refine ⟨?_, hcalls _ (by rw [hanswer]; rfl)⟩
    show Counted t { u with deleted := u.deleted + 1 } none
    rw [← hu]
    exact .ended e (Tally.countCut_removed he t)

/-- **ONE VISIT**: whatever fails, a visit counts its record once as examined, and as left, as dealt
with and removed, or as cut short by a failed call of its own. -/
theorem visit_examined (a : Action) (t : Tally) (w : World) :
    Examined t (answer (visit s a t) w) w (after (visit s a t) w) := by
  unfold visit
  dsimp only
  cases a.standing s.now s.config with
  | waiting =>
      exact ⟨.ended .waiting rfl, [], (List.append_nil w.trace).symm, List.forall_mem_nil _, rfl⟩
  | malformed why =>
      rw [after_bind, answer_bind, after_say, after_bind, answer_bind]
      obtain ⟨m, hcall, htrace, hbroken⟩ := removeAction_made (s := s) t.kind a.requestId
        (w.logged [⟨.warn, "discarding malformed " ++ a.describe⟩])
      have hmade : ∀ m' ∈ [m], m'.OfVisit :=
        List.forall_mem_singleton.mpr (Made.ofVisit_removeAction hcall)
      have hfind : [m].findSome? Made.broken? = m.broken? := List.findSome?_singleton
      rcases hanswer : answer (removeAction s t.kind a.requestId).run
          (w.logged [⟨.warn, "discarding malformed " ++ a.describe⟩]) with why | _
      · rw [hanswer] at hbroken
        exact ⟨.cut none nofun rfl, [m], htrace, hmade, hfind.trans hbroken⟩
      · rw [hanswer] at hbroken
        exact ⟨.ended .malformed rfl, [m], htrace, hmade, hfind.trans hbroken⟩
  | due lifetime =>
      obtain ⟨m, hcall, htrace, hbroken⟩ := findRequest_made (s := s) a.requestId w
      have hvisit : m.OfVisit := Made.ofVisit_findRequest hcall
      dsimp only
      rw [after_bind, answer_bind]
      generalize after (findRequest s a.requestId).run w = w₁ at htrace ⊢
      rcases hanswer : answer (findRequest s a.requestId).run w with why | found
      · rw [hanswer] at hbroken
        exact ⟨.cut none nofun rfl, [m], htrace, List.forall_mem_singleton.mpr hvisit,
          List.findSome?_singleton.trans hbroken⟩
      · rw [hanswer] at hbroken
        cases found with
        | none =>
            exact discard_examined a.requestId (e := .missing)
              (v := w₁.logged [⟨.warn, "request " ++ a.requestId ++
                " not present, discarding " ++ a.describe⟩])
              rfl htrace (List.forall_mem_singleton.mpr hvisit)
              (List.findSome?_singleton.trans hbroken)
        | some entry =>
            obtain ⟨made, hsettled, hwithin⟩ :=
              settle_made a lifetime entry { t with examined := t.examined + 1 } w₁ (s := s)
            have hmade := hsettled.trans (congrArg (· ++ made) htrace)
            rw [List.append_assoc] at hmade
            have hdue := Ending.due?_ofAnswer
              (answer (revert s a entry (a.expiryMessage lifetime)).run w₁)
            have hdiscarded := discard_examined (s := s) (t := t) a.requestId hdue hmade
              (fun m' hm' => ?_) ?_
            · rwa [← settle_counts] at hdiscarded
            · rcases List.mem_cons.mp hm' with rfl | hm'
              · exact hvisit
              · exact (Made.ofVisit_of_within (hwithin m' hm')).1
            · rw [List.singleton_append, List.findSome?_cons, hbroken]
              exact findSome?_broken?_within hwithin

/-! ## One kind -/

/-- What the visits to some records answer together, and the calls that they make. -/
structure Swept (s : Conditions) (actions : List Action) (t t' : Tally) (w w' : World) : Prop where
  kind : t'.kind = t.kind
  calls : ∃ made, w'.trace = w.trace ++ made ∧ (∀ m ∈ made, m.OfVisit) ∧
    t'.error = (made.findSome? Made.broken?).map Failure.message
  whole : t'.error = none →
    ∃ es : List Ending, es.length = actions.length ∧ t' = es.foldl Tally.count t
  /-- The records after the one at which the visits were cut short make no difference. -/
  cut : t'.error ≠ none → ∃ before a rest, actions = before ++ a :: rest ∧
    (∃ (es : List Ending) (reached : Option Ending), es.length = before.length ∧
      (∀ e ∈ reached, e.due? = some true) ∧
      t' = { (es.foldl Tally.count t).countCut reached with error := t'.error }) ∧
    ∀ others, answer (sweep s (before ++ a :: others) t) w = t' ∧
      after (sweep s (before ++ a :: others) t) w = w'

theorem after_sweep_cons (a : Action) (rest : List Action) (t : Tally) (w : World) :
    after (sweep s (a :: rest) t) w = match answer (visit s a t) w with
      | (t', none) => after (sweep s rest t') (after (visit s a t) w)
      | (t', some why) => after (abort t' why) (after (visit s a t) w) := by
  rw [sweep, after_bind]
  rcases answer (visit s a t) w with ⟨t', stop⟩
  cases stop <;> rfl

theorem answer_sweep_cons (a : Action) (rest : List Action) (t : Tally) (w : World) :
    answer (sweep s (a :: rest) t) w = match answer (visit s a t) w with
      | (t', none) => answer (sweep s rest t') (after (visit s a t) w)
      | (t', some why) => { t' with error := some why.message } := by
  rw [sweep, answer_bind]
  rcases answer (visit s a t) w with ⟨t', stop⟩
  cases stop <;> rfl

/-- **VISITS**: visits one after another are all counted, or are cut short at one record. -/
theorem sweep_swept (actions : List Action) {t : Tally} (herror : t.error = none) (w : World) :
    Swept s actions t (answer (sweep s actions t) w) w (after (sweep s actions t) w) := by
  induction actions generalizing t w with
  | nil =>
      refine ⟨rfl, ⟨[], (List.append_nil w.trace).symm, List.forall_mem_nil _, herror⟩, ?_, ?_⟩
      · exact fun _ => ⟨[], rfl, rfl⟩
      · exact fun hne => absurd herror hne
  | cons a rest ih =>
      have hvisit := visit_examined a t w (s := s)
      obtain ⟨made, htrace, hmade, hbroken⟩ := hvisit.calls
      have hcounted := hvisit.counted
      rw [after_sweep_cons, answer_sweep_cons]
      rcases hanswer : answer (visit s a t) w with ⟨t', stop⟩
      rw [hanswer] at hbroken hcounted
      cases hcounted with
      | @cut why reached hreached htally =>
          subst htally
          refine ⟨t.countCut_kind reached, ⟨made, htrace, hmade, ?_⟩, nofun, fun _ => ?_⟩
          · rw [hbroken]
            rfl
          · refine ⟨[], a, rest, rfl, ⟨[], reached, rfl, hreached, rfl⟩, fun others => ?_⟩
            rw [List.nil_append, answer_sweep_cons, after_sweep_cons, hanswer]
            exact ⟨rfl, rfl⟩
      | ended e htally =>
          subst htally
          have hrest := ih ((t.count_error e).trans herror) (after (visit s a t) w)
          obtain ⟨made', htrace', hmade', herror'⟩ := hrest.calls
          refine ⟨hrest.kind.trans (t.count_kind e), ⟨made ++ made', ?_, fun m hm => ?_, ?_⟩,
            fun hnone => ?_, fun hne => ?_⟩
          · dsimp only
            rw [htrace', htrace, List.append_assoc]
          · exact (List.mem_append.mp hm).elim (hmade m) (hmade' m)
          · rw [List.findSome?_append, hbroken, Option.none_or]
            exact herror'
          · obtain ⟨es, hlength, htally⟩ := hrest.whole hnone
            exact ⟨e :: es, congrArg (· + 1) hlength, htally⟩
          · obtain ⟨before, b, later, hactions, ⟨es, reached, hlength, hreached, htally⟩, hothers⟩ :=
              hrest.cut hne
            refine ⟨a :: before, b, later, by rw [hactions]; rfl,
              ⟨e :: es, reached, congrArg (· + 1) hlength, hreached, htally⟩, fun others => ?_⟩
            rw [List.cons_append, answer_sweep_cons, after_sweep_cons, hanswer]
            exact hothers others

/-! ## Records that are not visited -/

/-- A visit leaves the records of its kind for other requests. -/
theorem Visited.get?_key {a : Action} {failed : Bool} (h : Visited s kind a failed w w')
    (ha : a.kind = kind) {r : String} (hr : a.requestId ≠ r) :
    w'.store.get? (Store.key kind r) = w.store.get? (Store.key kind r) := by
  have hremoved : ∀ w : World, (w.removed kind a.requestId).store.get? (Store.key kind r) =
      w.store.get? (Store.key kind r) := by
    intro w
    show (w.store.remove kind a.requestId).get? _ = _
    rw [Store.get?_remove, if_neg fun h => hr (Store.key_inj.mp h).2.symm]
  cases h with
  | still quiet => rw [quiet.store]
  | dropped quiet => rw [quiet.store, hremoved]
  | @reverted _ w₁ _ entry message _ due present before outcome quiet =>
      -- what the revert stores is a bounce, and then it is no revert of one
      have hrevert : (after (revert s a entry message).run w₁).store.get? (Store.key kind r) =
          w.store.get? (Store.key kind r) := by
        rw [← before.store]
        rcases revert_stores (s := s) a entry message w₁ with hun | ⟨hscale, hst⟩
        · rw [hun.store]
        · obtain ⟨deployId, n, -, hstore, -⟩ := hst.stored
          rw [hstore, Store.get?_save, if_neg]
          intro hkey
          have hbounce : kind = .bounce := (Store.key_inj.mp hkey).1
          exact nomatch hscale.symm.trans (ha.trans hbounce)
      rcases quiet with quiet | quiet
      · rw [quiet.store, hrevert]
      · rw [quiet.store, hremoved, hrevert]

/-- The records of a kind that are not visited stay as they are. -/
theorem Visits.get?_key {vs : List (Action × Bool)} (h : Visits s kind vs w w') {r : String}
    (hvs : ∀ v ∈ vs, v.1.kind = kind ∧ v.1.requestId ≠ r) :
    w'.store.get? (Store.key kind r) = w.store.get? (Store.key kind r) := by
  induction h with
  | done quiet => rw [quiet.store]
  | next first _ ih =>
      obtain ⟨hkind, hr⟩ := hvs _ List.mem_cons_self
      rw [ih fun v hv => hvs v (List.mem_cons_of_mem _ hv), first.get?_key hkind hr]

/-- Healing leaves the records that read as actions. -/
theorem get?_healed_of_mem {st : Store} (hst : st.WellKeyed) {b : Action}
    (hb : b ∈ st.actions kind) :
    (st.healed kind).get? (Store.key kind b.requestId) =
      st.get? (Store.key kind b.requestId) := by
  obtain ⟨bytes, hget, hdecode⟩ := Option.bind_eq_some_iff.mp (hst.of_mem_actions hb).2
  rw [Store.healed, OrderedMap.get?_filter, hget]
  exact Option.filter_some_pos (by rw [hdecode]; simp)

/-! ## One pass -/

/-- A call that failed. -/
def Made.Failed (m : Made) : Prop := ∃ why, m.fault = some (.fails why)

/-- What the tally of a pass accounts for, from the world in which the pass began and that in which
it ended. -/
structure Accounted (s : Conditions) (kind : Kind) (w w' : World) (t : Tally) : Prop where
  ofKind : t.kind = kind
  /-- The calls of the poll itself are those that no revert makes. -/
  own : ∀ m ∈ w'.since w, m.call.operation.isOwn = true ↔ m.call.during = none
  error : t.error.isSome = true ↔
    ∃ m ∈ w'.since w, m.call.operation.isOwn = true ∧ m.Failed
  message : t.error = ((w'.since w).findSome? Made.broken?).map Failure.message
  reverts : (∀ m ∈ w'.since w, m.Failed → m.call.during ≠ none) → t.error = none
  whole : t.error = none → t.Balanced ∧ t.examined = .ofNat (w.store.actions kind).length ∧
    t.OfWhole (w.store.actions kind).length
  unlisted : (∃ m ∈ w'.since w, m.call.operation = .listActions kind ∧ m.Failed) →
    t = { kind, error := t.error }
  cut : t.error.isSome = true →
    (¬ ∃ m ∈ w'.since w, m.call.operation = .listActions kind ∧ m.Failed) →
      t.Cut ∧ ∃ before a rest, w.store.actions kind = before ++ a :: rest ∧
        t.examined = .ofNat (before.length + 1) ∧ t.OfCut before.length ∧
        (∀ others, (answer (sweep s (before ++ a :: others) { kind })
            (after (listActions s kind).run w) = t ∧
          after (sweep s (before ++ a :: others) { kind })
            (after (listActions s kind).run w) = w')) ∧
        (w.store.WellKeyed → ∀ b ∈ rest, w'.store.get? (Store.key kind b.requestId) =
          w.store.get? (Store.key kind b.requestId))

/-- The records after the one at which a pass was cut short stay as they are. -/
theorem unvisited_get? {t : Tally} (ht : t.kind = kind) (hst : w.store.WellKeyed)
    (hlisted : Quiet (w.healed kind) w₁) {before rest : List Action} {a : Action}
    (hactions : w.store.actions kind = before ++ a :: rest) {b : Action} (hb : b ∈ rest) :
    (after (sweep s (before ++ [a]) t) w₁).store.get? (Store.key kind b.requestId) =
      w.store.get? (Store.key kind b.requestId) := by
  obtain ⟨vs, hprefix, hvisits, -, -⟩ := sweep_visits (s := s) (before ++ [a]) t w₁
  rw [ht] at hvisits
  have hpairwise := hst.actions_pairwise kind
  have hsplit : w.store.actions kind = (before ++ [a]) ++ rest := by
    rw [hactions, List.append_assoc]
    rfl
  rw [hsplit] at hpairwise
  have hvs : ∀ v ∈ vs, v.1.kind = kind ∧ v.1.requestId ≠ b.requestId := by
    intro v hv
    have hmem := hprefix.subset (List.mem_map_of_mem hv)
    have hstored : v.1 ∈ w.store.actions kind := hsplit ▸ List.mem_append_left rest hmem
    exact ⟨(hst.of_mem_actions hstored).1, (List.pairwise_append.mp hpairwise).2.2 _ hmem b hb⟩
  have hbstored : b ∈ w.store.actions kind := hsplit ▸ List.mem_append_right _ hb
  rw [hvisits.get?_key hvs, hlisted.store]
  exact get?_healed_of_mem hst hbstored

/-- The calls of a pass: the listing, and then those of visits. -/
theorem Accounted.of_calls {t : Tally} {m : Made} {made : List Made}
    (hkind : t.kind = kind) (htrace : w'.trace = w.trace ++ m :: made)
    (hm : m.call = ⟨none, .listActions kind⟩) (hmade : ∀ m ∈ made, m.OfVisit)
    (herror : t.error = ((m :: made).findSome? Made.broken?).map Failure.message)
    (whole : t.error = none → t.OfWhole (w.store.actions kind).length)
    (unlisted : m.Failed → t = { kind, error := t.error })
    (cut : t.error ≠ none → ¬ m.Failed →
      ∃ before a rest, w.store.actions kind = before ++ a :: rest ∧ t.OfCut before.length ∧
        (∀ others, (answer (sweep s (before ++ a :: others) { kind })
            (after (listActions s kind).run w) = t ∧
          after (sweep s (before ++ a :: others) { kind })
            (after (listActions s kind).run w) = w')) ∧
        (w.store.WellKeyed → ∀ b ∈ rest, w'.store.get? (Store.key kind b.requestId) =
          w.store.get? (Store.key kind b.requestId))) :
    Accounted s kind w w' t := by
  have hsince : w'.since w = m :: made := by
    rw [World.since, htrace, List.drop_left]
  have hown : ∀ m' ∈ m :: made, m'.call.operation.isOwn = true ↔ m'.call.during = none := by
    intro m' hm'
    rcases List.mem_cons.mp hm' with rfl | hm'
    · rw [hm]
      exact ⟨fun _ => rfl, fun _ => rfl⟩
    · exact (hmade m' hm').1
  have hlisting : (∃ m' ∈ m :: made, m'.call.operation = .listActions kind ∧ m'.Failed) ↔
      m.Failed := by
    constructor
    · rintro ⟨m', hm', hop, hfailed⟩
      rcases List.mem_cons.mp hm' with rfl | hm'
      · exact hfailed
      · exact absurd hop ((hmade m' hm').2 kind)
    · exact fun hfailed => ⟨m, List.mem_cons_self, by rw [hm], hfailed⟩
  have hbroken : t.error.isSome = true ↔
      ∃ m' ∈ m :: made, m'.call.operation.isOwn = true ∧ m'.Failed := by
    rw [herror, Option.isSome_map, List.findSome?_isSome_iff]
    simp only [Made.broken?_isSome_iff, Made.Failed]
  refine ⟨hkind, ?_, ?_, ?_, ?_, fun hnone => ?_, ?_, ?_⟩
  · exact hsince ▸ hown
  · exact hsince ▸ hbroken
  · exact hsince ▸ herror
  · rw [hsince]
    intro hreverts
    rw [← Option.not_isSome_iff_eq_none, hbroken]
    rintro ⟨m', hm', hop, hfailed⟩
    exact hreverts m' hm' hfailed ((hown m' hm').mp hop)
  · obtain ⟨hbalanced, hexamined⟩ := (whole hnone).balanced
    exact ⟨hbalanced, hexamined, whole hnone⟩
  · rw [hsince, hlisting]
    exact unlisted
  · rw [hsince, hlisting]
    intro hsome hlisted
    obtain ⟨before, a, rest, hactions, htally, hrest⟩ :=
      cut (Option.isSome_iff_ne_none.mp hsome) hlisted
    exact ⟨htally.cut.1, before, a, rest, hactions, htally.cut.2, htally, hrest⟩

/-- **ONE PASS**: whatever fails, the tally of a pass accounts for the records that were listed. -/
theorem passOf_accounted (kind : Kind) (w : World) :
    Accounted s kind w (after (passOf s kind) w) (answer (passOf s kind) w) := by
  obtain ⟨m, hm, htrace, hbroken⟩ := listActions_made (s := s) kind w
  have hfailed : m.Failed ↔ m.broken?.isSome = true := by
    rw [Made.broken?_isSome_iff, hm]
    exact ⟨fun h => ⟨rfl, h⟩, fun h => h.2⟩
  rw [hbroken] at hfailed
  unfold passOf
  rw [after_bind, answer_bind]
  rcases listActions_cases s kind w with ⟨why, hanswer, -⟩ | ⟨hanswer, hlisted⟩
  · rw [hanswer] at hbroken hfailed ⊢
    refine .of_calls rfl (htrace.trans rfl) hm (List.forall_mem_nil _) ?_ nofun (fun _ => rfl) ?_
    · rw [List.findSome?_singleton, hbroken]
      rfl
    · exact fun _ hnot => absurd (hfailed.mpr rfl) hnot
  · rw [hanswer] at hbroken hfailed ⊢
    have hnot : ¬ m.Failed := fun h => nomatch hfailed.mp h
    have hswept := sweep_swept (s := s) (w.store.actions kind) (t := { kind }) rfl
      (after (listActions s kind).run w)
    obtain ⟨made, htrace', hmade, herror⟩ := hswept.calls
    rw [htrace, List.append_assoc] at htrace'
    refine .of_calls hswept.kind htrace' hm hmade ?_ (fun hnone => ?_) (fun h => absurd h hnot)
      fun hne _ => ?_
    · rw [List.findSome?_cons, hbroken]
      exact herror
    · obtain ⟨es, hlength, htally⟩ := hswept.whole hnone
      refine ⟨es, hlength, ?_⟩
      rw [htally, Tally.foldl_count]
      rfl
    · obtain ⟨before, a, rest, hactions, ⟨es, reached, hlength, hreached, htally⟩, hothers⟩ :=
        hswept.cut hne
      refine ⟨before, a, rest, hactions, ⟨es, reached, hlength, hreached, ?_⟩, hothers,
        fun hst b hb => ?_⟩
      · rw [Tally.foldl_count] at htally
        rw [hswept.kind]
        exact htally
      · -- the pass went as if nothing came after the record at which it was cut short
        rw [← (hothers []).2]
        exact unvisited_get? (t := { kind }) rfl hst hlisted hactions hb

/-! ## A poll -/

/-- Reverts keep records under the keys of their actions. -/
theorem revertFrame_wellKeyed (a : Action) (entry : Request.Entry) :
    RevertFrame s a entry fun w w' => w.store.WellKeyed → w'.store.WellKeyed where
  refl _ h := h
  trans h h' hw := h' (h hw)
  noted _ _ _ _ h := h
  minted _ _ _ h := h
  logged _ _ h := h
  cleanupRemoved _ _ _ h := h
  updatesRemoved _ _ _ _ _ h := h
  pendingRemoved _ _ _ h := h
  enqueued _ _ _ h := h
  cleanupCreated _ _ _ _ h := h
  bounced _ _ h := h
  stored _ _ _ _ _ _ h := h.save (Action.decode_encode _)
  updated _ _ _ _ _ _ _ _ h := h
  unpaused _ _ _ _ h := h
  notified _ _ _ _ h := h

theorem Visited.wellKeyed {a : Action} {failed : Bool} (h : Visited s kind a failed w w')
    (hst : w.store.WellKeyed) : w'.store.WellKeyed := by
  cases h with
  | still quiet => exact quiet.store ▸ hst
  | dropped quiet => exact quiet.store ▸ hst.filter _
  | @reverted _ w₁ _ entry message _ due present before outcome quiet =>
      have hrevert := (revertFrame_wellKeyed (s := s) a entry).revert message w₁ (before.store ▸ hst)
      rcases quiet with quiet | quiet
      · exact quiet.store ▸ hrevert
      · exact quiet.store ▸ hrevert.filter _

theorem passOf_wellKeyed (kind : Kind) (hst : w.store.WellKeyed) :
    (after (passOf s kind) w).store.WellKeyed := by
  obtain ⟨vs, w₁, hlisted, -, hvisits, -, -⟩ := passOf_visits (s := s) kind w
  have hstart : w₁.store.WellKeyed := by
    rcases hlisted with quiet | quiet
    · exact quiet.store ▸ hst
    · exact quiet.store ▸ hst.filter _
  refine hvisits.induct (fun _ w' => w'.store.WellKeyed) hstart ?_ ?_
  · intro done w₁ w₂ hdone quiet
    exact quiet.store ▸ hdone
  · intro done a failed rest w₁ w₂ _ hdone hvisited
    exact hvisited.wellKeyed hdone

theorem passes_wellKeyed (kinds : List Kind) (hst : w.store.WellKeyed) :
    (after (passes s kinds) w).store.WellKeyed := by
  induction kinds generalizing w with
  | nil => exact hst
  | cons kind rest ih => exact ih (passOf_wellKeyed kind hst)

/-- The world in which a poll comes to a kind. -/
def World.upTo (w : World) (s : Conditions) (kind : Kind) : World :=
  after (passes s (Kind.all.takeWhile (· ≠ kind))) w

/-- **ACCOUNTS**: whatever fails, a poll reports each kind once and in order, and the tally of each
accounts for the pass over it.  A well-keyed store is well keyed whenever a pass begins. -/
theorem poll_accounted (s : Conditions) (w : World) :
    (answer (poll s) w).kinds.map (·.kind) = Kind.all ∧
    (∀ kind, ∃ t, (answer (poll s) w).kind? kind = some t ∧
      Accounted s kind (w.upTo s kind) (after (passOf s kind) (w.upTo s kind)) t) ∧
    (w.store.WellKeyed → ∀ kind, (w.upTo s kind).store.WellKeyed) := by
  have haccounted := fun kind => passOf_accounted (s := s) kind (w.upTo s kind)
  have hkind := fun kind => (haccounted kind).ofKind
  have hkinds : (answer (poll s) w).kinds =
      Kind.all.map fun kind => answer (passOf s kind) (w.upTo s kind) := rfl
  refine ⟨?_, fun kind => ⟨answer (passOf s kind) (w.upTo s kind), ?_, haccounted kind⟩,
    fun hst kind => passes_wellKeyed _ hst⟩
  · rw [hkinds, List.map_map]
    exact (List.map_congr_left fun kind _ => hkind kind).trans (List.map_id _)
  · -- the tallies of the kinds before are of other kinds
    rw [Report.kind?, hkinds, List.find?_map]
    have htest : ((fun t : Tally => decide (t.kind = kind)) ∘
        fun kind' => answer (passOf s kind') (w.upTo s kind')) =
          fun kind' => decide (kind' = kind) := by
      funext kind'
      show decide (_ = kind) = _
      rw [hkind kind']
    have hfind : Kind.all.find? (fun kind' => decide (kind' = kind)) = some kind := by
      cases kind <;> decide
    rw [htest, hfind]
    rfl

/-- Two requests that are gone, with a pause each that ended. -/
def pausedPair : World where
  store :=
    let pause (r : String) : Action :=
      { requestId := r, actionId := "p-1", user := "alice", startMillis := 0
        terms := { durationMillis := some 5000 }, undo := .pause }
    (Store.save .empty (pause "api")).save (pause "web")

theorem pausedPair_wellKeyed : pausedPair.store.WellKeyed :=
  (Store.wellKeyed_empty.save (Action.decode_encode _)).save (Action.decode_encode _)

/-- Conditions in which no record can be removed. -/
def Conditions.stuck (now : Int64) : Conditions :=
  { Conditions.calm now with
    faults := fun _ c =>
      match c.operation with
      | .removeAction _ _ => some (.fails .files)
      | _ => none }

/-- The pass over the pauses is cut short at the first, and the second stays as it is. -/
theorem poll_accounted_pausedPair :
    pausedPair.store.WellKeyed ∧
    ∃ t, (answer (poll (.stuck 10000)) pausedPair).kind? .pause = some t ∧
      t = { kind := .pause, examined := 1, missingRequest := 1,
            error := some "input or output failed" } ∧
      t.Cut ∧
      (after (passOf (.stuck 10000) .pause) (pausedPair.upTo (.stuck 10000) .pause)).store.get?
          (Store.key .pause "web") =
        (pausedPair.upTo (.stuck 10000) .pause).store.get? (Store.key .pause "web") := by
  obtain ⟨-, htallies, hkeyed⟩ := poll_accounted (.stuck 10000) pausedPair
  obtain ⟨t, htally, haccounted⟩ := htallies .pause
  have ht : t = { kind := .pause, examined := 1, missingRequest := 1,
                  error := some "input or output failed" } := by
    refine Option.some.inj (htally.symm.trans ?_)
    decide +kernel
  refine ⟨pausedPair_wellKeyed, t, htally, ht, ?_⟩
  have hlisted : ¬ t = { kind := .pause, error := t.error } := by
    rw [ht]
    decide
  obtain ⟨hcut, before, a, rest, hactions, hexamined, -, -, hkept⟩ :=
    haccounted.cut (by rw [ht]; rfl) fun h => hlisted (haccounted.unlisted h)
  refine ⟨hcut, ?_⟩
  have hstored : ((pausedPair.upTo (.stuck 10000) .pause).store.actions .pause).map
      (·.requestId) = ["api", "web"] := by
    decide +kernel
  rw [hactions] at hstored
  obtain rfl : before = [] := by
    rw [ht] at hexamined
    cases before with
    | nil => rfl
    | cons b before =>
        cases before with
        | nil => exact absurd (show (1 : UInt32) = .ofNat 2 from hexamined) (by decide)
        | cons c before => simp at hstored
  obtain ⟨b, hb, hid⟩ := List.mem_map.mp ((List.cons.inj hstored).2 ▸ List.mem_singleton_self "web")
  rw [← hid]
  exact hkept (hkeyed pausedPair_wellKeyed .pause) b hb

end Lapse.Poll
