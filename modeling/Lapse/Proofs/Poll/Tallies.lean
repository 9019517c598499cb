import Lapse.Proofs.Poll.Account
import Mathlib.Data.List.TakeWhile

/-!
# What the tallies say

While its own calls do not fail, a poll visits of each kind the actions that the store held at the
beginning, and the tally of the kind says how these visits ended.  That a record waits, is dealt with or
has no lifetime does not depend on anything that was done before it was visited.
-/

namespace Lapse.Poll

variable {s : Conditions} {kind : Kind} {w w' : World}

/-! ## Endings -/

/-- Whether a visit found its record due depends on the record alone. -/
theorem due?_ending (s : Conditions) (a : Action) (w : World) :
    (s.ending a w).due? = (a.isDue s.now s.config).toOption := by
  rw [Conditions.ending]
  rcases hdue : a.isDue s.now s.config with why | due
  · rw [standing_of_error hdue]
    rfl
  · obtain ⟨lifetime, hl⟩ := lifetime_of_isDue hdue
    cases due with
    | false =>
        rw [standing_of_isDue_false hl hdue]
        rfl
    | true =>
        rw [standing_of_isDue hl hdue]
        dsimp only
        cases w.cluster.requests.get? a.requestId with
        | none => rfl
        | some entry => exact Ending.due?_ofAnswer _

theorem Ends.due? {es : List (Action × Ending)} (h : Ends s kind es w w') :
    ∀ e ∈ es, e.2.due? = (e.1.isDue s.now s.config).toOption := by
  induction h with
  | done => exact List.forall_mem_nil _
  | next first _ ih => exact List.forall_mem_cons.mpr ⟨due?_ending s _ _, ih⟩

/-! ## The pass over a kind in a poll -/

/-- A report with one tally for each kind. -/
theorem Report.kind?_map (now : Int64) {f : Kind → Tally} (hf : ∀ kind, (f kind).kind = kind)
    (kind : Kind) : Report.kind? ⟨now, Kind.all.map f⟩ kind = some (f kind) := by
  have htest : ((fun t : Tally => decide (t.kind = kind)) ∘ f) =
      fun kind' => decide (kind' = kind) := by
    funext kind'
    show decide ((f kind').kind = kind) = _
    rw [hf kind']
  have hfind : Kind.all.find? (fun kind' => decide (kind' = kind)) = some kind := by
    cases kind <;> decide
  rw [Report.kind?, List.find?_map, htest, hfind]
  rfl

/-- The kinds before a kind are other kinds, each once, and no bounces come late. -/
theorem takeWhile_pairwise (kind : Kind) :
    (Kind.all.takeWhile (· ≠ kind)).Pairwise fun k k' => k' ≠ k ∧ k' ≠ .bounce := by
  cases kind <;> decide

theorem ne_of_mem_takeWhile {kind' : Kind} (h : kind' ∈ Kind.all.takeWhile (· ≠ kind)) :
    kind' ≠ kind := by
  simpa using List.mem_takeWhile_imp h

/-- Before a poll comes to a kind it runs the schedule of the kinds before. -/
theorem upTo_run (hs : s.SparesPoll) (kind : Kind) (w : World) :
    Run s (scheduleOf w.store (Kind.all.takeWhile (· ≠ kind))) w (w.upTo s kind) :=
  (passes_run hs (takeWhile_pairwise kind) w).1

/-- When a poll comes to a kind it finds the actions that were there at the beginning. -/
theorem upTo_actions (hs : s.SparesPoll) (kind : Kind) (w : World) :
    (w.upTo s kind).store.actions kind = w.store.actions kind := by
  by_cases hb : kind = .bounce
  · subst hb
    rfl
  · refine (upTo_run hs kind w).actions_eq hb fun e he => ?_
    exact (ne_of_mem_takeWhile (kind_of_mem_scheduleOf he)).symm

/-- **TALLIES**: while its own calls do not fail, a poll visits of each kind the actions that were
there at the beginning, and its tally says how these visits ended. -/
theorem poll_ends (hs : s.SparesPoll) (kind : Kind) (w : World) :
    ∃ es w₁, es.map Prod.fst = w.store.actions kind ∧ Quiet ((w.upTo s kind).healed kind) w₁ ∧
      Ends s kind es w₁ (after (passOf s kind) (w.upTo s kind)) ∧
      (answer (poll s) w).kind? kind = some (.ofEndings kind (es.map Prod.snd)) := by
  obtain ⟨es, w₁, hes, hlisted, hends, htally⟩ := passOf_ends hs kind (w.upTo s kind)
  refine ⟨es, w₁, hes.trans (upTo_actions hs kind w), hlisted, hends, ?_⟩
  have hreport : answer (poll s) w =
      ⟨s.now, Kind.all.map fun kind => answer (passOf s kind) (w.upTo s kind)⟩ := rfl
  rw [hreport, Report.kind?_map _ (fun k => (passOf_run hs k _).2.1), htally]

end Lapse.Poll
