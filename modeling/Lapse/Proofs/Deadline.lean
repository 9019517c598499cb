import Lapse.Action.Deadline
import Mathlib.Data.UInt

/-!
# When an action is due

Instants are numbers of 64 bits with a sign, lifetimes are numbers of 64 bits without one, and sums,
differences and products stop at the ends of their ranges.  All the same an action is due exactly
when its deadline has passed, and that is when more than its lifetime has passed by the count of
the integers.  The one exception is a lifetime that no difference of instants can exceed: such an
action is never due, also when its deadline has passed.
-/

namespace Lapse

/-! ## Instants -/

theorem Instant.toInt_clamp (n : Int) :
    (Instant.clamp n).toInt = max Int64.minValue.toInt (min n Int64.maxValue.toInt) := by
  have hlo : Int64.minValue.toInt = -2 ^ 63 := rfl
  have hhi : Int64.maxValue.toInt = 2 ^ 63 - 1 := rfl
  rw [Instant.clamp, hlo, hhi]
  exact Int64.toInt_ofInt_of_le (by omega) (by omega)

namespace Action

variable {a : Action} {config : Config} {now now' : Int64} {d : Nat}

theorem elapsed_mono (a : Action) (h : now ≤ now') :
    (a.elapsed now).toInt ≤ (a.elapsed now').toInt := by
  have hle : now.toInt ≤ now'.toInt := Int64.le_iff_toInt_le.mp h
  rw [elapsed, elapsed, Instant.toInt_clamp, Instant.toInt_clamp]
  omega

/-- No time has passed since an action that begins now or later. -/
theorem elapsed_nonpos (h : now ≤ a.startMillis) : (a.elapsed now).toInt ≤ 0 := by
  have hle : now.toInt ≤ a.startMillis.toInt := Int64.le_iff_toInt_le.mp h
  have hlo : Int64.minValue.toInt = -2 ^ 63 := rfl
  rw [elapsed, Instant.toInt_clamp]
  omega

/-- More than a number of milliseconds has passed by the clock that stops at the greatest
difference exactly if it has passed by the count of the integers and the clock can show it. -/
theorem lt_elapsed_iff :
    (d : Int) < (a.elapsed now).toInt ↔
      (d : Int) < now.toInt - a.startMillis.toInt ∧ (d : Int) < Int64.maxValue.toInt := by
  have hlo : Int64.minValue.toInt = -2 ^ 63 := rfl
  rw [elapsed, Instant.toInt_clamp]
  omega

/-! ## Lifetimes -/

/-- The lifetime of an action as a number: as agreed, or for a bounce the configured minutes in
milliseconds, up to the greatest lifetime that there is. -/
def span? (a : Action) (config : Config) : Option Nat :=
  match a.terms.durationMillis with
  | some d => some d.toNat
  | none =>
    if a.kind = .bounce then some (min (config.bounceMinutes.toNat * 60000) (UInt64.size - 1))
    else none

/-- Why an action without a lifetime has none. -/
def lack (a : Action) : Failure := .missingDuration a.kind a.requestId

theorem span?_eq_none_iff (a : Action) (config : Config) :
    a.span? config = none ↔ a.kind ≠ .bounce ∧ a.terms.durationMillis = none := by
  rw [span?]
  cases a.terms.durationMillis with
  | some d => simp
  | none => simp

theorem toNat_bounceMillis (config : Config) :
    config.bounceMillis.toNat = min (config.bounceMinutes.toNat * 60000) (UInt64.size - 1) := by
  refine UInt64.toNat_ofNat_of_lt ?_
  have hsize : UInt64.size = 2 ^ 64 := rfl
  omega

/-- A lifetime is the number that it should be. -/
theorem lifetime_of_span? (h : a.span? config = some d) :
    ∃ lifetime, a.lifetime config = .ok lifetime ∧ lifetime.toNat = d := by
  rw [span?] at h
  rw [lifetime]
  cases hterms : a.terms.durationMillis with
  | some l =>
      rw [hterms] at h
      exact ⟨l, rfl, Option.some.inj h⟩
  | none =>
      rw [hterms] at h
      dsimp only at h
      split at h
      · next hkind =>
        rw [hkind]
        exact ⟨_, rfl, (toNat_bounceMillis config).trans (Option.some.inj h)⟩
      · exact nomatch h

theorem lifetime_of_span?_none (h : a.span? config = none) :
    a.lifetime config = .error a.lack := by
  obtain ⟨hkind, hterms⟩ := (span?_eq_none_iff a config).mp h
  rw [lifetime, hterms, lack]
  cases hk : a.kind with
  | bounce => exact absurd hk hkind
  | pause => rfl
  | scale => rfl
  | skipHealthchecks => rfl

/-! ## The flag and the deadline -/

theorem isDue_of_span? (h : a.span? config = some d) (now : Int64) :
    a.isDue now config = .ok (decide ((d : Int) < (a.elapsed now).toInt)) := by
  obtain ⟨lifetime, hlifetime, rfl⟩ := lifetime_of_span? h
  rw [isDue, hlifetime]
  rfl

theorem deadline_of_span? (h : a.span? config = some d) :
    a.deadline config =
      .ok (Instant.clamp (a.startMillis.toInt + min (d : Int) Int64.maxValue.toInt)) := by
  obtain ⟨lifetime, hlifetime, rfl⟩ := lifetime_of_span? h
  rw [deadline, hlifetime]
  rfl

theorem isDue_of_span?_none (h : a.span? config = none) (now : Int64) :
    a.isDue now config = .error a.lack := by
  rw [isDue, lifetime_of_span?_none h]
  rfl

theorem deadline_of_span?_none (h : a.span? config = none) :
    a.deadline config = .error a.lack := by
  rw [deadline, lifetime_of_span?_none h]
  rfl

/-- A deadline has passed exactly when more than the lifetime has, as far as differences of
instants show lifetimes. -/
theorem clamp_add_lt_iff :
    Instant.clamp (a.startMillis.toInt + min (d : Int) Int64.maxValue.toInt) < now ↔
      min (d : Int) Int64.maxValue.toInt < now.toInt - a.startMillis.toInt := by
  have hlo : Int64.minValue.toInt = -2 ^ 63 := rfl
  have hhi : Int64.maxValue.toInt = 2 ^ 63 - 1 := rfl
  have hstart := a.startMillis.minValue_le_toInt
  have hnow := now.toInt_le
  rw [Int64.lt_iff_toInt_lt, Instant.toInt_clamp]
  omega

/-- What is due stays due. -/
theorem isDue_mono (h : now ≤ now') (hdue : a.isDue now config = .ok true) :
    a.isDue now' config = .ok true := by
  cases hspan : a.span? config with
  | none =>
      rw [isDue_of_span?_none hspan] at hdue
      exact nomatch hdue
  | some d =>
      rw [isDue_of_span? hspan] at hdue ⊢
      have hlt := of_decide_eq_true (Except.ok.inj hdue)
      rw [decide_eq_true (Int.lt_of_lt_of_le hlt (a.elapsed_mono h))]

/-- An action has no lifetime, no deadline and no flag for one and the same reason. -/
theorem error_iff {α : Type} {x : Except Failure α}
    (hsome : ∀ d, a.span? config = some d → ∃ v, x = .ok v)
    (hnone : a.span? config = none → x = .error a.lack) (why : Failure) :
    x = .error why ↔
      (a.kind ≠ .bounce ∧ a.terms.durationMillis = none) ∧
        why = .missingDuration a.kind a.requestId := by
  rw [← span?_eq_none_iff a config]
  cases hspan : a.span? config with
  | some d =>
      obtain ⟨v, rfl⟩ := hsome d hspan
      exact ⟨nofun, fun h => nomatch h.1⟩
  | none =>
      rw [hnone hspan]
      exact ⟨fun h => ⟨rfl, (Except.error.inj h).symm⟩, fun h => congrArg _ h.2.symm⟩

/-- **DEADLINES**: an action with a lifetime is due exactly when its deadline has passed, except
where the lifetime is one that no difference of instants exceeds and a greater difference has passed
by the count of the integers: then it is not due although its deadline has passed.  A lesser
lifetime is over exactly when more than it has passed by that count.  What is due stays due, and the
lifetime, the deadline and the flag are missing for the same actions: those other than bounces for
which no duration was agreed on. -/
theorem isDue_deadline (a : Action) (config : Config) :
    (∀ d, a.span? config = some d → ∃ lifetime deadline,
      a.lifetime config = .ok lifetime ∧ lifetime.toNat = d ∧ a.deadline config = .ok deadline ∧
      ∀ now, ∃ due, a.isDue now config = .ok due ∧
        let passed := now.toInt - a.startMillis.toInt
        let outlasts := Int64.maxValue.toInt ≤ d ∧ Int64.maxValue.toInt < passed
        (¬ outlasts → (due = true ↔ deadline < now)) ∧
        (outlasts → due = false ∧ deadline < now) ∧
        ((d : Int) < Int64.maxValue.toInt → (due = true ↔ (d : Int) < passed))) ∧
    (∀ now now', now ≤ now' → a.isDue now config = .ok true → a.isDue now' config = .ok true) ∧
    ∀ now why,
      let lacks := (a.kind ≠ .bounce ∧ a.terms.durationMillis = none) ∧
        why = .missingDuration a.kind a.requestId
      (a.lifetime config = .error why ↔ lacks) ∧ (a.deadline config = .error why ↔ lacks) ∧
        (a.isDue now config = .error why ↔ lacks) := by
  refine ⟨fun d hspan => ?_, fun now now' => isDue_mono, fun now why => ⟨?_, ?_, ?_⟩⟩
  · obtain ⟨lifetime, hlifetime, hd⟩ := lifetime_of_span? hspan
    refine ⟨lifetime, _, hlifetime, hd, deadline_of_span? hspan, fun now => ?_⟩
    refine ⟨_, isDue_of_span? hspan now, ?_⟩
    dsimp only
    rw [decide_eq_true_iff, decide_eq_false_iff_not, lt_elapsed_iff, clamp_add_lt_iff]
    refine ⟨?_, ?_, ?_⟩
    · omega
    · omega
    · omega
  · exact error_iff (fun d h => ⟨_, (lifetime_of_span? h).choose_spec.1⟩) lifetime_of_span?_none why
  · exact error_iff (fun d h => ⟨_, deadline_of_span? h⟩) deadline_of_span?_none why
  · exact error_iff (fun d h => ⟨_, isDue_of_span? h now⟩) (fun h => isDue_of_span?_none h now) why

/-- A pause as long as there are instants after 1970, begun a moment before. -/
def endlessPause : Action where
  requestId := "web"
  actionId := "p-1"
  user := "alice"
  startMillis := -2
  terms := { durationMillis := some (2 ^ 63 - 1) }
  undo := .pause

/-- Its deadline passes before the last instant, and yet it is not due then. -/
theorem isDue_deadline_endlessPause :
    ∃ deadline, endlessPause.deadline {} = .ok deadline ∧ deadline < Int64.maxValue ∧
      endlessPause.isDue Int64.maxValue {} = .ok false := by
  have hspan : endlessPause.span? {} = some (2 ^ 63 - 1) := by decide +kernel
  obtain ⟨_, deadline, _, _, hdeadline, hdue⟩ := (isDue_deadline endlessPause {}).1 _ hspan
  obtain ⟨due, hdue, -, houtlasts, -⟩ := hdue Int64.maxValue
  obtain ⟨rfl, hpassed⟩ := houtlasts (by decide +kernel)
  exact ⟨deadline, hdeadline, hpassed, hdue⟩

end Action

end Lapse
