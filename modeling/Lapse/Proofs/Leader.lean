import Lapse.Leader
import Mathlib.Data.List.Range

/-!
# When the leader's task runs

A tick runs its task only where both answers about leadership are yes and the lock is sound, and it
takes the second answer only where the first is yes and the lock is sound.  A task that breaks off
spoils the lock for good, so no later tick runs.  The loop is ticks at the multiples of its interval up
to the shutdown, and a tick that fails does not end it.
-/

namespace Lapse.Leader

/-- How often the task ran. -/
def State.works (st : State) : Nat := st.events.count .worked

/-! ## One tick -/

/-- What a tick does, from the answers that it takes and the lock that it finds. -/
structure Ticked (latch : Nat → Bool) (breaks : Bool) (before : State) (outcome : Outcome)
    (after : State) : Prop where
  runs_iff : outcome.isRun = true ↔
    before.spoilt = false ∧ latch before.asked = true ∧ latch (before.asked + 1) = true
  works : after.works = before.works + if outcome.isRun then 1 else 0
  asked : after.asked = before.asked +
    if latch before.asked = true ∧ before.spoilt = false then 2 else 1
  broke_iff : outcome = .broke ↔ outcome.isRun = true ∧ breaks = true
  spoilt_iff : after.spoilt = true ↔ before.spoilt = true ∨ outcome = .broke
  blocked : before.spoilt = true → outcome =
    if latch before.asked then .failed (.store "scheduler lock poisoned") else .notLeader

variable {name : String} {latch : Nat → Bool}

section Exits

variable {breaks : Bool} {st : State}

theorem tick_not_leader (hfirst : latch st.asked = false) : tick name latch breaks st =
    (.notLeader, { st with asked := st.asked + 1 }.say .debug
      ("skipping " ++ name ++ ": not the leader")) := by
  rw [tick, hfirst]
  rfl

theorem tick_locked_out (hfirst : latch st.asked = true) (hspoilt : st.spoilt = true) :
    tick name latch breaks st =
      (.failed (.store "scheduler lock poisoned"), { st with asked := st.asked + 1 }) := by
  rw [tick, hfirst]
  exact if_pos hspoilt

theorem tick_deposed (hfirst : latch st.asked = true) (hsound : st.spoilt = false)
    (hsecond : latch (st.asked + 1) = false) : tick name latch breaks st =
      (.notLeader, { st with asked := st.asked + 2 }.say .debug
        ("lost leadership before running " ++ name)) := by
  simp [tick, hfirst, hsound, hsecond]

theorem tick_runs (hfirst : latch st.asked = true) (hsound : st.spoilt = false)
    (hsecond : latch (st.asked + 1) = true) : tick name latch breaks st =
      if breaks then (.broke, { { st with asked := st.asked + 2 }.work with spoilt := true })
      else (.ran, { st with asked := st.asked + 2 }.work.say .debug (name ++ " ran")) := by
  simp [tick, hfirst, hsound, hsecond]

/-- How a tick ends is told by the answers, the lock and the task. -/
theorem tick_outcome : (tick name latch breaks st).1 =
    if latch st.asked then
      if st.spoilt then .failed (.store "scheduler lock poisoned")
      else if latch (st.asked + 1) then if breaks then .broke else .ran
      else .notLeader
    else .notLeader := by
  cases hfirst : latch st.asked with
  | false => rw [tick_not_leader hfirst]; rfl
  | true =>
  cases hspoilt : st.spoilt with
  | true => rw [tick_locked_out hfirst hspoilt]; rfl
  | false =>
  cases hsecond : latch (st.asked + 1) with
  | false => rw [tick_deposed hfirst hspoilt hsecond]; rfl
  | true => rw [tick_runs hfirst hspoilt hsecond]; cases breaks <;> rfl

end Exits

/-- **ONE TICK**: the task runs where the lock is sound and both answers are yes, and a tick takes the
second answer only where it may still run. -/
theorem tick_ticked (name : String) (latch : Nat → Bool) (breaks : Bool) (st : State) :
    Ticked latch breaks st (tick name latch breaks st).1 (tick name latch breaks st).2 := by
  cases hfirst : latch st.asked with
  | false =>
      rw [tick_not_leader hfirst]
      constructor <;> simp [hfirst, Outcome.isRun, State.works, State.say]
  | true =>
  cases hspoilt : st.spoilt with
  | true =>
      rw [tick_locked_out hfirst hspoilt]
      constructor <;> simp [hfirst, hspoilt, Outcome.isRun, State.works]
  | false =>
  cases hsecond : latch (st.asked + 1) with
  | false =>
      rw [tick_deposed hfirst hspoilt hsecond]
      constructor <;> simp [hfirst, hspoilt, hsecond, Outcome.isRun, State.works, State.say]
  | true =>
      rw [tick_runs hfirst hspoilt hsecond]
      cases breaks with
      | false =>
          constructor <;>
            simp [hfirst, hspoilt, hsecond, Outcome.isRun, State.works, State.say, State.work]
      | true =>
          constructor <;> simp [hfirst, hspoilt, hsecond, Outcome.isRun, State.works, State.work]

/-! ## Ticks one after another -/

/-- The states between ticks one after another: each tick finds one and leaves the next. -/
def states (st : State) (results : List (Outcome × State)) : List State :=
  st :: results.map Prod.snd

theorem length_ticks (breaks : Nat → Bool) (first count : Nat) (st : State) :
    (ticks name latch breaks first count st).length = count := by
  induction count generalizing first st with
  | zero => rfl
  | succ count ih => exact congrArg (· + 1) (ih (first + 1) _)

section Ticks

variable {breaks : Nat → Bool} {first count i : Nat} {st before after : State} {outcome : Outcome}

/-- Each of the ticks starts from what the one before it left. -/
theorem ticks_ticked
    (hbefore : (states st (ticks name latch breaks first count st))[i]? = some before)
    (hresult : (ticks name latch breaks first count st)[i]? = some (outcome, after)) :
    Ticked latch (breaks (first + i)) before outcome after := by
  induction count generalizing first st i with
  | zero => exact nomatch hresult
  | succ count ih =>
      cases i with
      | zero =>
          have hstep := tick_ticked name latch (breaks first) st
          rw [Option.some.inj hresult, Option.some.inj hbefore] at hstep
          exact hstep
      | succ i =>
          have hrest : Ticked latch (breaks (first + 1 + i)) before outcome after :=
            ih hbefore hresult
          rw [Nat.add_assoc, Nat.add_comm 1 i] at hrest
          exact hrest

/-- The lock is spoilt exactly if it was at first or a task broke off before. -/
theorem ticks_spoilt_iff
    (hbefore : (states st (ticks name latch breaks first count st))[i]? = some before) :
    before.spoilt = true ↔ st.spoilt = true ∨
      ∃ j < i, ∃ st', (ticks name latch breaks first count st)[j]? = some (.broke, st') := by
  induction i generalizing before with
  | zero =>
      rw [← Option.some.inj hbefore]
      exact ⟨.inl, fun h => h.resolve_right fun ⟨_, hj, _⟩ => nomatch hj⟩
  | succ i ih =>
      obtain ⟨⟨outcome, after⟩, hresult, rfl⟩ : ∃ result,
          (ticks name latch breaks first count st)[i]? = some result ∧ result.2 = before := by
        rw [states, List.getElem?_cons_succ, List.getElem?_map] at hbefore
        exact Option.map_eq_some_iff.mp hbefore
      obtain ⟨found, hfound⟩ : ∃ found,
          (states st (ticks name latch breaks first count st))[i]? = some found := by
        have hlt := (List.getElem?_eq_some_iff.mp hresult).1
        exact ⟨_, List.getElem?_eq_getElem (by rw [states, List.length_cons, List.length_map]; omega)⟩
      rw [(ticks_ticked hfound hresult).spoilt_iff, ih hfound, or_assoc]
      refine or_congr_right ⟨?_, ?_⟩
      · rintro (⟨j, hj, st', hbroke⟩ | rfl)
        · exact ⟨j, by omega, st', hbroke⟩
        · exact ⟨i, by omega, after, hresult⟩
      · rintro ⟨j, hj, st', hbroke⟩
        by_cases hji : j = i
        · rw [hji, hresult] at hbroke
          exact .inr (Prod.mk.inj (Option.some.inj hbroke)).1
        · exact .inl ⟨j, by omega, st', hbroke⟩

end Ticks

/-! ## The loop -/

variable (name latch)

/-- Two states that no later tick tells apart, after equally much work. -/
structure Abreast (st st' : State) : Prop where
  asked : st.asked = st'.asked
  spoilt : st.spoilt = st'.spoilt
  works : st.works = st'.works

theorem Abreast.say (st : State) (level : Level) (message : String) :
    Abreast (st.say level message) st where
  asked := rfl
  spoilt := rfl
  works := by simp [State.works, State.say]

theorem Abreast.trans {st₁ st₂ st₃ : State} (h : Abreast st₁ st₂) (h' : Abreast st₂ st₃) :
    Abreast st₁ st₃ :=
  ⟨h.asked.trans h'.asked, h.spoilt.trans h'.spoilt, h.works.trans h'.works⟩

/-- How a tick ends depends on the answers and the lock only. -/
theorem Abreast.tick {st st' : State} (h : Abreast st st') (breaks : Bool) :
    (tick name latch breaks st).1 = (tick name latch breaks st').1 ∧
      Abreast (tick name latch breaks st).2 (tick name latch breaks st').2 := by
  have hstep := tick_ticked name latch breaks st
  have hstep' := tick_ticked name latch breaks st'
  have hout : (Leader.tick name latch breaks st).1 = (Leader.tick name latch breaks st').1 := by
    rw [tick_outcome, tick_outcome, h.asked, h.spoilt]
  refine ⟨hout, ?_, ?_, ?_⟩
  · rw [hstep.asked, hstep'.asked, h.asked, h.spoilt]
  · rw [Bool.eq_iff_iff, hstep.spoilt_iff, hstep'.spoilt_iff, h.spoilt, hout]
  · rw [hstep.works, hstep'.works, h.works, hout]

/-- A failure is logged, and that is all that the loop adds to a tick. -/
theorem loopTick_abreast {st st' : State} (h : Abreast st st') :
    (loopTick name latch st).1 = (tick name latch false st').1 ∧
      Abreast (loopTick name latch st).2 (tick name latch false st').2 := by
  obtain ⟨hout, hleft⟩ := h.tick name latch false
  rw [loopTick]
  split
  · next why left htick =>
    rw [htick] at hout hleft
    exact ⟨hout, (Abreast.say left _ _).trans hleft⟩
  · exact ⟨hout, hleft⟩

/-- From an instant on the loop does the ticks at every interval up to the shutdown, as they would
be done without the loop. -/
theorem loopFrom_ticks {interval : Nat} (shutdown : Nat) (hinterval : 0 < interval) (k first : Nat)
    {st st' : State} (h : Abreast st st') :
    let timeline := (loopFrom name latch interval shutdown (k * interval) st).1
    let direct := ticks name latch (fun _ => false) first timeline.length st'
    timeline.map Prod.fst = (List.range' k timeline.length).map (· * interval) ∧
      (∀ n, k ≤ n → (n < k + timeline.length ↔ n * interval < shutdown)) ∧
      timeline.map Prod.snd = direct.map Prod.fst ∧
      Abreast (loopFrom name latch interval shutdown (k * interval) st).2
        ((direct.map Prod.snd).getLastD st') := by
  by_cases hbefore : k * interval < shutdown
  · obtain ⟨hout, hleft⟩ := loopTick_abreast name latch h
    obtain ⟨hinstants, hbelow, houtcomes, hend⟩ :=
      loopFrom_ticks shutdown hinterval (k + 1) (first + 1) hleft
    have hloop : loopFrom name latch interval shutdown (k * interval) st =
        ((k * interval, (loopTick name latch st).1) ::
          (loopFrom name latch interval shutdown ((k + 1) * interval) (loopTick name latch st).2).1,
        (loopFrom name latch interval shutdown ((k + 1) * interval) (loopTick name latch st).2).2) := by
      rw [loopFrom, if_pos ⟨hinterval, hbefore⟩, Nat.succ_mul]
    rw [hloop]
    refine ⟨?_, fun n hn => ?_, ?_, ?_⟩
    · rw [List.map_cons, hinstants, List.length_cons, List.range'_succ, List.map_cons]
    · rcases Nat.eq_or_lt_of_le hn with rfl | hlt
      · exact ⟨fun _ => hbefore, fun _ => by rw [List.length_cons]; omega⟩
      · rw [← hbelow n hlt, List.length_cons]
        omega
    · rw [List.map_cons, houtcomes, hout]
      rfl
    · dsimp only
      rw [List.length_cons, ticks, List.map_cons, List.getLastD_cons]
      exact hend
  · have hloop : loopFrom name latch interval shutdown (k * interval) st = ([], st) := by
      rw [loopFrom, if_neg fun hand => hbefore hand.2]
    rw [hloop]
    refine ⟨rfl, fun n hn => ?_, rfl, h⟩
    have hle : k * interval ≤ n * interval := Nat.mul_le_mul_right interval hn
    rw [List.length_nil]
    omega
termination_by shutdown - k * interval
decreasing_by rw [Nat.succ_mul]; omega

/-- The loop as a timeline of ticks: they fall on the multiples of the interval before the shutdown, and
end, take answers, work and spoil the lock as the same number of ticks without the loop. -/
structure Looped (name : String) (latch : Nat → Bool) (interval shutdown : Nat) (st : State)
    (timeline : List (Nat × Outcome)) (left : State) : Prop where
  made : loopFrom name latch interval shutdown 0 (st.say .info ("starting " ++ name)) = (timeline, left)
  run : run name latch interval shutdown st =
    (timeline.countP (·.2.isRun), left.say .info ("stopping " ++ name))
  instants : timeline.map Prod.fst = (List.range timeline.length).map (· * interval)
  below : ∀ n, n < timeline.length ↔ n * interval < shutdown
  outcomes : timeline.map Prod.snd =
    (ticks name latch (fun _ => false) 0 timeline.length st).map Prod.fst
  abreast : Abreast left
    (((ticks name latch (fun _ => false) 0 timeline.length st).map Prod.snd).getLastD st)

theorem run_looped {interval : Nat} (hinterval : 0 < interval) (shutdown : Nat) (st : State) :
    ∃ timeline left, Looped name latch interval shutdown st timeline left := by
  have hstart := Abreast.say st .info ("starting " ++ name)
  obtain ⟨hinstants, hbelow, houtcomes, hend⟩ :=
    loopFrom_ticks name latch shutdown hinterval 0 0 hstart
  rw [Nat.zero_mul] at hinstants hbelow houtcomes hend
  refine ⟨_, _, rfl, ?_, ?_, fun n => ?_, houtcomes, hend⟩
  · rw [run, if_neg (by omega)]
  · rw [hinstants, List.range_eq_range']
  · rw [← hbelow n (Nat.zero_le n), Nat.zero_add]

/-- **LEADERSHIP**: in ticks one after another, whatever the latch answers and whichever tasks break
off, each tick runs its task where the lock is sound and both of its answers are yes, and takes as many
answers as it needs; once a task broke off none runs any more.  The loop is such ticks at the
multiples of its interval before the shutdown, and without an interval it asks nothing and does nothing. -/
theorem leader_runs (breaks : Nat → Bool) (st : State) :
    (∀ count, let results := ticks name latch breaks 0 count st
      results.length = count ∧
        ∀ i before outcome after, (states st results)[i]? = some before →
          results[i]? = some (outcome, after) →
          Ticked latch (breaks i) before outcome after ∧
          ∀ j < i, ∀ st', results[j]? = some (.broke, st') →
            outcome = if latch before.asked then .failed (.store "scheduler lock poisoned")
              else .notLeader) ∧
    (∀ interval shutdown, 0 < interval →
      ∃ timeline left, Looped name latch interval shutdown st timeline left) ∧
    ∀ shutdown, (run name latch 0 shutdown st).1 = 0 ∧
      Abreast (run name latch 0 shutdown st).2 st := by
  refine ⟨fun count => ⟨length_ticks breaks 0 count st, ?_⟩, ?_, fun shutdown => ⟨rfl, .say st _ _⟩⟩
  · intro i before outcome after hbefore hresult
    have hstep := ticks_ticked hbefore hresult
    rw [Nat.zero_add] at hstep
    refine ⟨hstep, fun j hj st' hbroke => hstep.blocked ?_⟩
    exact (ticks_spoilt_iff hbefore).mpr (.inr ⟨j, hj, st', hbroke⟩)
  · intro interval shutdown hinterval
    exact run_looped name latch hinterval shutdown st

/-! The second of four ticks breaks off, and leadership is away when the third asks for it. -/

/-- The fifth answer is no. -/
def awayOnce : Nat → Bool := (· != 4)

/-- What the four ticks come to. -/
def fourTicks : List (Outcome × State) := ticks "poller" awayOnce (· == 1) 0 4 {}

theorem leader_runs_awayOnce :
    fourTicks.map Prod.fst =
        [.ran, .broke, .notLeader, .failed (.store "scheduler lock poisoned")] ∧
      (∃ before after, (states {} fourTicks)[3]? = some before ∧
        fourTicks[3]? = some (.failed (.store "scheduler lock poisoned"), after) ∧
        Ticked awayOnce false before (.failed (.store "scheduler lock poisoned")) after) ∧
      ∃ timeline left, Looped "poller" awayOnce 10 25 {} timeline left ∧
        timeline.map Prod.fst = [0, 10, 20] := by
  obtain ⟨hticks, hloop, -⟩ := leader_runs "poller" awayOnce (· == 1) {}
  refine ⟨by decide +kernel, ⟨_, _, rfl, rfl, ((hticks 4).2 3 _ _ _ rfl rfl).1⟩, ?_⟩
  obtain ⟨timeline, left, hlooped⟩ := hloop 10 25 (by decide)
  refine ⟨timeline, left, hlooped, ?_⟩
  have hthree : timeline.length = 3 := by
    have hlow := (hlooped.below 2).mpr (by decide)
    have hhigh := mt (hlooped.below 3).mp (by decide)
    omega
  rw [hlooped.instants, hthree]
  rfl

end Lapse.Leader
