import Lapse.Proofs.Poll.Schedule

/-!
# Polls under any faults

When every call may fail a poll no longer follows the schedule: a kind may not be listed, it may be
cut short, and a record may stay although its revert was done.  What is left is that a kind is
listed at most once, that the visits are to the first of the actions that it held, in their order,
and that a visit does nothing, removes its record, or undoes its action once, be it in part.  The
reverts that failed are those that the tally counts.
-/

namespace Lapse.Poll

open World (say)

variable {s : Conditions}

/-! ## The calls of a poll -/

theorem removeAction_cases (s : Conditions) (kind : Kind) (r : String) (w : World) :
    (∃ why, answer (removeAction s kind r).run w = .error why ∧
        Quiet w (after (removeAction s kind r).run w)) ∨
      answer (removeAction s kind r).run w = .ok () ∧
        Quiet (w.removed kind r) (after (removeAction s kind r).run w) := by
  unfold removeAction
  rcases run_call s none (.removeAction kind r) (w := w) with ⟨why, -, hfails⟩ | ⟨-, hrun⟩
  · refine .inl ⟨why, (hfails _).1, ?_⟩
    rw [(hfails _).2]
    exact Quiet.note w _ rfl
  · refine .inr ⟨(hrun _).1, ?_⟩
    rw [(hrun _).2]
    exact (Quiet.note w _ rfl).removed kind r

theorem findRequest_cases (s : Conditions) (r : String) (w : World) :
    ((∃ why, answer (findRequest s r).run w = .error why) ∨
        answer (findRequest s r).run w = .ok (w.cluster.requests.get? r)) ∧
      Quiet w (after (findRequest s r).run w) := by
  unfold findRequest
  rcases run_call s none (.findRequest r) (w := w) with ⟨why, -, hfails⟩ | ⟨-, hrun⟩
  · refine ⟨.inl ⟨why, (hfails _).1⟩, ?_⟩
    rw [(hfails _).2]
    exact Quiet.note w _ rfl
  · refine ⟨.inr (hrun _).1, ?_⟩
    rw [(hrun _).2]
    exact Quiet.note w _ rfl

theorem listActions_cases (s : Conditions) (kind : Kind) (w : World) :
    (∃ why, answer (listActions s kind).run w = .error why ∧
        Quiet w (after (listActions s kind).run w)) ∨
      answer (listActions s kind).run w = .ok (w.store.actions kind) ∧
        Quiet (w.healed kind) (after (listActions s kind).run w) := by
  unfold listActions
  rcases run_call s none (.listActions kind) (w := w) with ⟨why, -, hfails⟩ | ⟨-, hrun⟩
  · refine .inl ⟨why, (hfails _).1, ?_⟩
    rw [(hfails _).2]
    exact Quiet.note w _ rfl
  · refine .inr ⟨(hrun _).1, ?_⟩
    rw [(hrun _).2]
    exact ⟨rfl, rfl, (Quiet.note w _ rfl).saved, rfl⟩

/-! ## One visit -/

/-- The ways in which a visit passes, whatever fails, and whether its revert failed. -/
inductive Visited (s : Conditions) (kind : Kind) (a : Action) : Bool → World → World → Prop
  | still {w w'} (quiet : Quiet w w') : Visited s kind a false w w'
  | dropped {w w'} (quiet : Quiet (w.removed kind a.requestId) w') : Visited s kind a false w w'
  | reverted {w w₁ w' entry message failed} (due : s.isDue a = true)
      (present : w.cluster.requests.get? a.requestId = some entry) (before : Quiet w w₁)
      (outcome : failed = true ↔ ∃ why, answer (revert s a entry message).run w₁ = .error why)
      (quiet : Quiet (after (revert s a entry message).run w₁) w' ∨
        Quiet ((after (revert s a entry message).run w₁).removed kind a.requestId) w') :
      Visited s kind a failed w w'

theorem settle_failed (a : Action) (lifetime : UInt64) (entry : Request.Entry) (t : Tally)
    (w : World) : ∃ failed : Bool,
      (failed = true ↔ ∃ why, answer (revert s a entry (a.expiryMessage lifetime)).run w =
        .error why) ∧
      (answer (settle s a lifetime entry t) w).failed = t.failed + .ofNat failed.toNat := by
  unfold settle
  dsimp only
  rw [answer_bind]
  rcases answer (revert s a entry (a.expiryMessage lifetime)).run w with why | outcome
  · exact ⟨true, ⟨fun _ => ⟨why, rfl⟩, fun _ => rfl⟩, rfl⟩
  · refine ⟨false, ⟨nofun, nofun⟩, ?_⟩
    cases outcome with
    | applied => exact (UInt32.add_zero t.failed).symm
    | skipped why => exact (UInt32.add_zero t.failed).symm

/-- The end of a visit to a due action removes its record, or fails to. -/
theorem discard_cases (s : Conditions) (r : String) (t : Tally) (w : World) :
    (Quiet w (after (discard s r t) w) ∨ Quiet (w.removed t.kind r) (after (discard s r t) w)) ∧
      (answer (discard s r t) w).1.kind = t.kind ∧
      (answer (discard s r t) w).1.failed = t.failed := by
  unfold discard
  rw [after_bind, answer_bind]
  rcases removeAction_cases s t.kind r w with ⟨why, hanswer, hquiet⟩ | ⟨hanswer, hquiet⟩
  · rw [hanswer]
    exact ⟨.inl hquiet, rfl, rfl⟩
  · rw [hanswer]
    exact ⟨.inr hquiet, rfl, rfl⟩

theorem isDue_of_standing {a : Action} {lifetime : UInt64}
    (h : a.standing s.now s.config = .due lifetime) : s.isDue a = true := by
  rw [Conditions.isDue, (of_standing_due h).1]

/-- A visit does nothing, drops its record, or undoes its action, and counts a revert that
failed. -/
theorem visit_visited (a : Action) (t : Tally) (w : World) : ∃ failed,
    Visited s t.kind a failed w (after (visit s a t) w) ∧
      (answer (visit s a t) w).1.kind = t.kind ∧
      (answer (visit s a t) w).1.failed = t.failed + .ofNat failed.toNat := by
  have hnone : t.failed = t.failed + .ofNat false.toNat := (UInt32.add_zero t.failed).symm
  unfold visit
  dsimp only
  cases hstanding : a.standing s.now s.config with
  | waiting => exact ⟨false, .still (Quiet.refl w), rfl, hnone⟩
  | malformed why =>
      rw [after_bind, answer_bind, after_say, after_bind, answer_bind]
      have hlogged := Quiet.logged w [⟨.warn, "discarding malformed " ++ a.describe⟩]
      rcases removeAction_cases s t.kind a.requestId
          (w.logged [⟨.warn, "discarding malformed " ++ a.describe⟩]) with
        ⟨why, hanswer, hquiet⟩ | ⟨hanswer, hquiet⟩
      · rw [hanswer]
        exact ⟨false, .still (hlogged.trans hquiet), rfl, hnone⟩
      · rw [hanswer]
        exact ⟨false, .dropped ((hlogged.removed _ _).trans hquiet), rfl, hnone⟩
  | due lifetime =>
      obtain ⟨hfind, hquiet⟩ := findRequest_cases s a.requestId w
      dsimp only
      rw [after_bind, answer_bind]
      generalize after (findRequest s a.requestId).run w = w₁ at hquiet ⊢
      rcases hfind with ⟨why, hwhy⟩ | hfound
      · rw [hwhy]
        exact ⟨false, .still hquiet, rfl, hnone⟩
      · rw [hfound]
        cases hget : w.cluster.requests.get? a.requestId with
        | none =>
            obtain ⟨hend, hkind, hfailed⟩ := discard_cases s a.requestId
              { t with examined := t.examined + 1, missingRequest := t.missingRequest + 1 }
              (w₁.logged [⟨.warn, "request " ++ a.requestId ++ " not present, discarding " ++
                a.describe⟩])
            have hlogged := hquiet.trans (Quiet.logged w₁ [⟨.warn, "request " ++ a.requestId ++
              " not present, discarding " ++ a.describe⟩])
            refine ⟨false, ?_, hkind, hfailed.trans hnone⟩
            rcases hend with hend | hend
            · exact .still (hlogged.trans hend)
            · exact .dropped ((hlogged.removed t.kind a.requestId).trans hend)
        | some entry =>
            obtain ⟨hsettle, hkind, -⟩ :=
              settle_spec a lifetime entry { t with examined := t.examined + 1 } w₁ (s := s)
            obtain ⟨failed, houtcome, hcount⟩ :=
              settle_failed a lifetime entry { t with examined := t.examined + 1 } w₁ (s := s)
            obtain ⟨hend, hkind', hfailed⟩ := discard_cases s a.requestId
              (answer (settle s a lifetime entry { t with examined := t.examined + 1 }) w₁)
              (after (settle s a lifetime entry { t with examined := t.examined + 1 }) w₁)
            refine ⟨failed, ?_, hkind'.trans hkind, hfailed.trans hcount⟩
            refine .reverted (isDue_of_standing hstanding) hget hquiet houtcome ?_
            rw [hkind] at hend
            exact hend.imp hsettle.trans (hsettle.removed t.kind a.requestId).trans

/-! ## One kind -/

/-- Visits one after another, and which of their reverts failed. -/
inductive Visits (s : Conditions) (kind : Kind) : List (Action × Bool) → World → World → Prop
  | done {w w'} (quiet : Quiet w w') : Visits s kind [] w w'
  | next {a failed rest w w₁ w'} (first : Visited s kind a failed w w₁)
      (others : Visits s kind rest w₁ w') : Visits s kind ((a, failed) :: rest) w w'

namespace Visits

variable {kind : Kind} {vs : List (Action × Bool)} {w w₁ w' : World}

/-- **INDUCTION**: what holds at the beginning and is passed on by each visit holds at the end. -/
theorem induct (h : Visits s kind vs w w') (P : List (Action × Bool) → World → Prop)
    (start : P [] w) (quiet : ∀ done w₁ w₂, P done w₁ → Quiet w₁ w₂ → P done w₂)
    (next : ∀ done a failed rest w₁ w₂, vs = done ++ (a, failed) :: rest → P done w₁ →
      Visited s kind a failed w₁ w₂ → P (done ++ [(a, failed)]) w₂) : P vs w' := by
  -- the visits before the first one go into the statement
  have key : ∀ {rest w₁ w'}, Visits s kind rest w₁ w' → ∀ done, vs = done ++ rest → P done w₁ →
      P vs w' := by
    intro rest w₁ w' hrun
    induction hrun with
    | done hquiet =>
        intro done hvs hP
        rw [hvs, List.append_nil]
        exact quiet done _ _ hP hquiet
    | next first _ ih =>
        intro done hvs hP
        refine ih (done ++ [_]) (by rw [hvs, List.append_assoc]; rfl) ?_
        exact next done _ _ _ _ _ hvs hP first
  exact key h [] rfl start

end Visits

/-- The reverts that failed. -/
def failures (vs : List (Action × Bool)) : List Action := (vs.filter (·.2)).map (·.1)

theorem sweep_visits (actions : List Action) (t : Tally) (w : World) :
    ∃ vs, vs.map (·.1) <+: actions ∧ Visits s t.kind vs w (after (sweep s actions t) w) ∧
      (answer (sweep s actions t) w).kind = t.kind ∧
      (answer (sweep s actions t) w).failed = t.failed + .ofNat (failures vs).length := by
  induction actions generalizing t w with
  | nil =>
      exact ⟨[], List.nil_prefix, .done (Quiet.refl w), rfl, (UInt32.add_zero t.failed).symm⟩
  | cons a rest ih =>
      obtain ⟨failed, hvisited, hkind, hcount⟩ := visit_visited a t w (s := s)
      have hlength : ∀ vs, (failures ((a, failed) :: vs)).length =
          failed.toNat + (failures vs).length := by
        intro vs
        cases failed with
        | false => simp [failures]
        | true => simp [failures, Nat.add_comm]
      rw [sweep, after_bind, answer_bind]
      rcases hanswer : answer (visit s a t) w with ⟨t', stop⟩
      rw [hanswer] at hkind hcount
      cases stop with
      | none =>
          obtain ⟨vs, hprefix, hvisits, hkind', hcount'⟩ := ih t' (after (visit s a t) w)
          rw [show t'.kind = t.kind from hkind] at hvisits
          refine ⟨(a, failed) :: vs, ?_, .next hvisited hvisits, hkind'.trans hkind, ?_⟩
          · exact List.cons_prefix_cons.mpr ⟨rfl, hprefix⟩
          · rw [hlength, UInt32.ofNat_add, ← UInt32.add_assoc, ← hcount]
            exact hcount'
      | some why =>
          refine ⟨[(a, failed)], ?_, .next hvisited (.done ?_), hkind, ?_⟩
          · exact List.cons_prefix_cons.mpr ⟨rfl, List.nil_prefix⟩
          · exact Quiet.logged _ _
          · rw [hlength]
            exact hcount

/-- **COURSE**: whatever fails, a kind is listed or not, and then the first of its actions are
visited; the tally counts the reverts that failed. -/
theorem passOf_visits (kind : Kind) (w : World) : ∃ vs w₁,
    (Quiet w w₁ ∨ Quiet (w.healed kind) w₁) ∧ vs.map (·.1) <+: w.store.actions kind ∧
      Visits s kind vs w₁ (after (passOf s kind) w) ∧ (answer (passOf s kind) w).kind = kind ∧
      (answer (passOf s kind) w).failed = .ofNat (failures vs).length := by
  unfold passOf
  rw [after_bind, answer_bind]
  rcases listActions_cases s kind w with ⟨why, hanswer, hquiet⟩ | ⟨hanswer, hquiet⟩
  · rw [hanswer]
    exact ⟨[], _, .inl hquiet, List.nil_prefix, .done (Quiet.logged _ _), rfl, rfl⟩
  · rw [hanswer]
    obtain ⟨vs, hprefix, hvisits, hkind, hcount⟩ :=
      sweep_visits (w.store.actions kind) { kind } (after (listActions s kind).run w) (s := s)
    refine ⟨vs, _, .inr hquiet, hprefix, hvisits, hkind, ?_⟩
    exact hcount.trans (UInt32.zero_add _)

end Lapse.Poll
