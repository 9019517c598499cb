import Lapse.Poll.World

/-!
# Running steps

A computation over the world answers something and leaves a world; a step that fails leaves the
world as it was when it failed.  `Keeps R` says that a computation only moves the world along the
relation `R`.  For relations that allow doing nothing, going on, noting a call and logging
(`Frame`), this passes from the parts of a computation to the whole, whatever faults it meets.
-/

namespace Lapse.Poll

variable {α β : Type}

/-- What a computation answers. -/
def answer (act : StateM World α) (w : World) : α := (Id.run (act.run w)).1

/-- The world that a computation leaves. -/
def after (act : StateM World α) (w : World) : World := (Id.run (act.run w)).2

/-- The action that a call stored. -/
def Made.saved? (m : Made) : Option Action :=
  match m.call.operation, m.fault with
  | .saveAction _, some (.fails _) => none
  | .saveAction a, _ => some a
  | _, _ => none

/-- The actions that were stored in a pass so far, in order. -/
def World.saved (w : World) : List Action := w.trace.filterMap Made.saved?

/-- A world with more lines in its log. -/
def World.logged (w : World) (lines : List LogLine) : World := { w with log := w.log ++ lines }

theorem Made.saved?_saveAction {during : Option String} {a : Action} {fault : Option Fault}
    (h : ∀ why, fault ≠ some (.fails why)) :
    Made.saved? ⟨⟨during, .saveAction a⟩, fault⟩ = some a := by
  cases fault with
  | none => rfl
  | some fault =>
      cases fault with
      | fails why => exact absurd rfl (h why)
      | present => rfl

theorem World.saved_note (w : World) (c : Call) (fault : Option Fault) :
    (w.note c fault).saved = w.saved ++ (Made.saved? ⟨c, fault⟩).toList := by
  show (w.trace ++ [_]).filterMap Made.saved? = _
  rw [List.filterMap_append]
  cases h : Made.saved? ⟨c, fault⟩ with
  | none => rw [List.filterMap_cons_none h]; rfl
  | some a => rw [List.filterMap_cons_some h]; rfl

/-! ## Answers and worlds of composed computations -/

theorem after_bind (x : StateM World α) (f : α → StateM World β) (w : World) :
    after (x >>= f) w = after (f (answer x w)) (after x w) := rfl

theorem answer_bind (x : StateM World α) (f : α → StateM World β) (w : World) :
    answer (x >>= f) w = answer (f (answer x w)) (after x w) := rfl

theorem after_say (level : Level) (message : String) (w : World) :
    after (World.say level message) w = w.logged [⟨level, message⟩] := rfl

theorem after_step_bind (x : Step α) (f : α → Step β) (w : World) :
    after (x >>= f).run w = match answer x.run w with
      | .ok a => after (f a).run (after x.run w)
      | .error _ => after x.run w := by
  rw [ExceptT.run_bind, after_bind]
  cases answer x.run w <;> rfl

theorem answer_step_bind (x : Step α) (f : α → Step β) (w : World) :
    answer (x >>= f).run w = match answer x.run w with
      | .ok a => answer (f a).run (after x.run w)
      | .error why => .error why := by
  rw [ExceptT.run_bind, answer_bind]
  cases answer x.run w <;> rfl

/-- A step after one that succeeds. -/
theorem after_step_bind_ok {x : Step α} {a : α} {w : World} (h : answer x.run w = .ok a)
    (f : α → Step β) : after (x >>= f).run w = after (f a).run (after x.run w) := by
  rw [after_step_bind, h]

theorem answer_step_bind_ok {x : Step α} {a : α} {w : World} (h : answer x.run w = .ok a)
    (f : α → Step β) : answer (x >>= f).run w = answer (f a).run (after x.run w) := by
  rw [answer_step_bind, h]

/-- Nothing comes after a step that fails. -/
theorem after_step_bind_error {x : Step α} {why : Failure} {w : World}
    (h : answer x.run w = .error why) (f : α → Step β) :
    after (x >>= f).run w = after x.run w := by
  rw [after_step_bind, h]

theorem after_step_catch (x : Step α) (f : Failure → Step α) (w : World) :
    after (tryCatch x f).run w = match answer x.run w with
      | .ok _ => after x.run w
      | .error why => after (f why).run (after x.run w) := by
  -- catching is a match on what the step answered
  show after (ExceptT.tryCatch x f).run w = _
  unfold ExceptT.tryCatch
  rw [ExceptT.run_mk, after_bind]
  rw [show answer x w = answer x.run w from rfl]
  cases answer x.run w <;> rfl

theorem answer_step_catch (x : Step α) (f : Failure → Step α) (w : World) :
    answer (tryCatch x f).run w = match answer x.run w with
      | .ok a => .ok a
      | .error why => answer (f why).run (after x.run w) := by
  show answer (ExceptT.tryCatch x f).run w = _
  unfold ExceptT.tryCatch
  rw [ExceptT.run_mk, answer_bind]
  rw [show answer x w = answer x.run w from rfl]
  cases answer x.run w <;> rfl

/-! ## Calls -/

/-- A call that no fault keeps from its work. -/
theorem run_call_ok {s : Conditions} {during : Option String} {op : Operation} {w : World}
    (h : ∀ why, s.faults w.calls ⟨during, op⟩ ≠ some (.fails why)) (act : Step α) :
    answer (call s during op act).run w =
        answer act.run (w.note ⟨during, op⟩ (s.faults w.calls ⟨during, op⟩)) ∧
      after (call s during op act).run w =
        after act.run (w.note ⟨during, op⟩ (s.faults w.calls ⟨during, op⟩)) := by
  have hmeet : answer (liftM (meet s during op) : Step (Option Fault)).run w =
      .ok (s.faults w.calls ⟨during, op⟩) := rfl
  have hafter : after (liftM (meet s during op) : Step (Option Fault)).run w =
      w.note ⟨during, op⟩ (s.faults w.calls ⟨during, op⟩) := rfl
  unfold call
  rw [answer_step_bind_ok hmeet, after_step_bind_ok hmeet, hafter]
  cases hf : s.faults w.calls ⟨during, op⟩ with
  | none => exact ⟨rfl, rfl⟩
  | some fault =>
      cases fault with
      | fails why => exact absurd hf (h why)
      | present => exact ⟨rfl, rfl⟩

/-- A call that fails by a fault. -/
theorem run_call_fails {s : Conditions} {during : Option String} {op : Operation} {w : World}
    {why : Failure} (h : s.faults w.calls ⟨during, op⟩ = some (.fails why)) (act : Step α) :
    answer (call s during op act).run w = .error why ∧
      after (call s during op act).run w = w.note ⟨during, op⟩ (some (.fails why)) := by
  have hmeet : answer (liftM (meet s during op) : Step (Option Fault)).run w =
      .ok (some (.fails why)) := congrArg Except.ok h
  have hafter : after (liftM (meet s during op) : Step (Option Fault)).run w =
      w.note ⟨during, op⟩ (some (.fails why)) := congrArg (w.note ⟨during, op⟩) h
  unfold call
  rw [answer_step_bind_ok hmeet, after_step_bind_ok hmeet, hafter]
  exact ⟨rfl, rfl⟩

/-- A call fails by a fault and does nothing else, or it does its work. -/
theorem run_call (s : Conditions) (during : Option String) (op : Operation) {w : World} :
    (∃ why, s.faults w.calls ⟨during, op⟩ = some (.fails why) ∧ ∀ act : Step α,
      answer (call s during op act).run w = .error why ∧
        after (call s during op act).run w = w.note ⟨during, op⟩ (some (.fails why))) ∨
    (∀ why, s.faults w.calls ⟨during, op⟩ ≠ some (.fails why)) ∧ ∀ act : Step α,
      answer (call s during op act).run w =
          answer act.run (w.note ⟨during, op⟩ (s.faults w.calls ⟨during, op⟩)) ∧
        after (call s during op act).run w =
          after act.run (w.note ⟨during, op⟩ (s.faults w.calls ⟨during, op⟩)) := by
  by_cases hf : ∃ why, s.faults w.calls ⟨during, op⟩ = some (.fails why)
  · obtain ⟨why, hwhy⟩ := hf
    exact .inl ⟨why, hwhy, run_call_fails hwhy⟩
  · have hok : ∀ why, s.faults w.calls ⟨during, op⟩ ≠ some (.fails why) :=
      fun why hwhy => hf ⟨why, hwhy⟩
    exact .inr ⟨hok, run_call_ok hok⟩

/-- A call that asks the cluster something answers by the cluster as it is, or fails. -/
theorem answer_read {s : Conditions} {during : Option String} {op : Operation} {w : World}
    {f : Cluster → α} {a : α}
    (h : answer (call s during op (do return f (← cluster))).run w = .ok a) :
    a = f w.cluster := by
  rcases run_call s during op (w := w) with ⟨why, -, hfails⟩ | ⟨-, hrun⟩
  · rw [(hfails _).1] at h
    exact nomatch h
  · rw [(hrun _).1] at h
    exact (Except.ok.inj h).symm

theorem run_tryChange_ok {f : Cluster → Except Failure Cluster} {w : World} {c : Cluster}
    (h : f w.cluster = .ok c) :
    answer (tryChange f).run w = .ok () ∧ after (tryChange f).run w = { w with cluster := c } := by
  unfold tryChange
  rw [answer_step_bind_ok (a := w.cluster) rfl, after_step_bind_ok (a := w.cluster) rfl, h]
  exact ⟨rfl, rfl⟩

theorem run_tryChange_error {f : Cluster → Except Failure Cluster} {w : World} {why : Failure}
    (h : f w.cluster = .error why) :
    answer (tryChange f).run w = .error why ∧ after (tryChange f).run w = w := by
  unfold tryChange
  rw [answer_step_bind_ok (a := w.cluster) rfl, after_step_bind_ok (a := w.cluster) rfl, h]
  exact ⟨rfl, rfl⟩

/-- A change that was not refused. -/
theorem answer_tryChange {s : Conditions} {during : Option String} {op : Operation} {w : World}
    {f : Cluster → Except Failure Cluster}
    (h : answer (call s during op (tryChange f)).run w = .ok ()) :
    ∃ c, f w.cluster = .ok c := by
  rcases run_call s during op (w := w) with ⟨why, -, hfails⟩ | ⟨-, hrun⟩
  · rw [(hfails _).1] at h
    exact nomatch h
  · rw [(hrun _).1] at h
    cases hc : f w.cluster with
    | ok c => exact ⟨c, rfl⟩
    | error why =>
        rw [(run_tryChange_error (w := w.note _ _) hc).1] at h
        exact nomatch h

/-- Ordering a cleanup that meets no fault. -/
theorem run_createCleanup {s : Conditions} {during : String} {cleanup : Request.Cleanup}
    {w : World} (h : s.faults w.calls ⟨during, .createCleanup cleanup⟩ = none) :
    answer (createCleanup s during cleanup).run w = .ok (w.cluster.createCleanup cleanup).1 ∧
      (after (createCleanup s during cleanup).run w).cluster =
        (w.cluster.createCleanup cleanup).2 ∧
      (after (createCleanup s during cleanup).run w).store = w.store := by
  have hmeet : answer (liftM (meet s during (.createCleanup cleanup)) : Step (Option Fault)).run w =
      .ok none := congrArg Except.ok h
  unfold createCleanup
  rw [answer_step_bind_ok hmeet, after_step_bind_ok hmeet]
  dsimp only
  rw [answer_step_bind_ok (a := w.cluster) rfl, after_step_bind_ok (a := w.cluster) rfl]
  rcases w.cluster.createCleanup cleanup with ⟨creation, c⟩
  cases creation with
  | existed => exact ⟨rfl, rfl, rfl⟩
  | created => exact ⟨rfl, rfl, rfl⟩

/-! ## Steps without failures -/

/-- No call fails. -/
def Conditions.Reliable (s : Conditions) : Prop := ∀ n c why, s.faults n c ≠ some (.fails why)

/-- No call of a revert for a request, or of the poll itself, fails. -/
def Conditions.Spares (s : Conditions) (during : Option String) : Prop :=
  ∀ n op why, s.faults n ⟨during, op⟩ ≠ some (.fails why)

theorem Conditions.Reliable.spares {s : Conditions} (hs : s.Reliable) (during : Option String) :
    s.Spares during :=
  fun n op why => hs n ⟨during, op⟩ why

/-- Conditions in which nothing goes wrong. -/
def Conditions.calm (now : Int64) : Conditions where
  config := {}
  now := now
  wall := now
  freshId n := "fresh-" ++ toString n

theorem Conditions.reliable_calm (now : Int64) : (Conditions.calm now).Reliable :=
  fun _ _ _ h => nomatch h

/-- A step that, wherever the cluster is `c`, answers `a` and leaves the cluster at `c'`. -/
def Turns (act : Step α) (c : Cluster) (a : α) (c' : Cluster) : Prop :=
  ∀ w, w.cluster = c → answer act.run w = .ok a ∧ (after act.run w).cluster = c'

namespace Turns

variable {s : Conditions} {c c₁ c' : Cluster} {during : Option String} {op : Operation}

theorem pure (a : α) (c : Cluster) : Turns (Pure.pure a) c a c := fun _ hw => ⟨rfl, hw⟩

theorem say (level : Level) (message : String) (c : Cluster) :
    Turns (liftM (World.say level message)) c () c := fun _ hw => ⟨rfl, hw⟩

theorem bind {x : Step α} {f : α → Step β} {a : α} {b : β} (hx : Turns x c a c₁)
    (hf : Turns (f a) c₁ b c') : Turns (x >>= f) c b c' := by
  intro w hw
  obtain ⟨hok, hcluster⟩ := hx w hw
  rw [answer_step_bind_ok hok, after_step_bind_ok hok]
  exact hf _ hcluster

theorem call (hs : s.Spares during) {act : Step α} {a : α} (h : Turns act c a c') :
    Turns (call s during op act) c a c' := by
  intro w hw
  have hrun := run_call_ok (hs w.calls op) act
  rw [hrun.1, hrun.2]
  exact h _ hw

theorem read (hs : s.Spares during) (f : Cluster → α) (c : Cluster) :
    Turns (Poll.call s during op (do return f (← cluster))) c (f c) c :=
  call hs fun w hw => ⟨by rw [← hw]; rfl, hw⟩

theorem change (hs : s.Spares during) (f : Cluster → Cluster) (c : Cluster) :
    Turns (Poll.call s during op (changeCluster f)) c () (f c) :=
  call hs fun _ hw => ⟨rfl, congrArg f hw⟩

theorem tryChange (hs : s.Spares during) {f : Cluster → Except Failure Cluster}
    (h : f c = .ok c') : Turns (Poll.call s during op (tryChange f)) c () c' := by
  refine call hs fun w hw => ?_
  rw [← hw] at h
  rw [(run_tryChange_ok h).1, (run_tryChange_ok h).2]
  exact ⟨rfl, rfl⟩

end Turns

/-- A change that is refused, when no call fails. -/
theorem run_call_tryChange_error {s : Conditions} {during : Option String}
    (hs : s.Spares during) {op : Operation} {f : Cluster → Except Failure Cluster} {w : World}
    {why : Failure}
    (h : f w.cluster = .error why) :
    answer (call s during op (tryChange f)).run w = .error why ∧
      (after (call s during op (tryChange f)).run w).cluster = w.cluster := by
  have hrun := run_call_ok (hs w.calls op) (tryChange f)
  have hrefused : f (w.note ⟨during, op⟩ (s.faults w.calls ⟨during, op⟩)).cluster =
      .error why := h
  rw [hrun.1, hrun.2, (run_tryChange_error hrefused).1, (run_tryChange_error hrefused).2]
  exact ⟨rfl, rfl⟩

/-! ## Frames -/

/-- A computation moves the world along a relation. -/
def Keeps (R : World → World → Prop) (act : StateM World α) : Prop := ∀ w, R w (after act w)

/-- A relation that allows doing nothing, going on, noting a call that stores nothing, using up
action ids, and logging. -/
structure Frame (R : World → World → Prop) : Prop where
  refl : ∀ w, R w w
  trans : ∀ {w₁ w₂ w₃}, R w₁ w₂ → R w₂ w₃ → R w₁ w₃
  noted : ∀ w c fault, Made.saved? ⟨c, fault⟩ = none → R w (w.note c fault)
  minted : ∀ (w : World) n, w.minted ≤ n → R w { w with minted := n }
  logged : ∀ w lines, R w (w.logged lines)

namespace Frame

/-- What is read off the cluster stays the same while the cluster is not changed. -/
theorem ofCluster {γ : Type} (f : Cluster → γ) :
    Frame fun w w' => f w'.cluster = f w.cluster where
  refl _ := rfl
  trans h h' := h'.trans h
  noted _ _ _ _ := rfl
  minted _ _ _ := rfl
  logged _ _ := rfl

variable {R : World → World → Prop} (hR : Frame R)

include hR

theorem say (level : Level) (message : String) : Keeps R (World.say level message) :=
  fun w => hR.logged w _

theorem step_pure (a : α) : Keeps R (Pure.pure a : Step α).run := hR.refl

theorem throw (why : Failure) : Keeps R (MonadExcept.throw why : Step α).run := hR.refl

theorem get : Keeps R (MonadState.get : Step World).run := hR.refl

omit hR in
theorem lift {x : StateM World α} (hx : Keeps R x) : Keeps R (liftM x : Step α).run := hx

/-- What follows a step moves the world along `R` from where the step left it. -/
theorem step_rest (x : Step α) {f : α → Step β} (hf : ∀ a, Keeps R (f a).run) (w : World) :
    R (after x.run w) (after (x >>= f).run w) := by
  cases h : answer x.run w with
  | ok a =>
      rw [after_step_bind_ok h]
      exact hf a (after x.run w)
  | error why =>
      rw [after_step_bind_error h]
      exact hR.refl (after x.run w)

theorem step_bind {x : Step α} {f : α → Step β} (hx : Keeps R x.run)
    (hf : ∀ a, Keeps R (f a).run) : Keeps R (x >>= f).run :=
  fun w => hR.trans (hx w) (hR.step_rest x hf w)

/-- A step whose rest depends on what was answered. -/
theorem step_bind_of {x : Step α} {f : α → Step β} (hx : Keeps R x.run)
    (hf : ∀ w a, answer x.run w = .ok a → R (after x.run w) (after (f a).run (after x.run w))) :
    Keeps R (x >>= f).run := by
  intro w
  cases h : answer x.run w with
  | ok a =>
      rw [after_step_bind_ok h]
      exact hR.trans (hx w) (hf w a h)
  | error why =>
      rw [after_step_bind_error h]
      exact hx w

theorem step_catch {x : Step α} {f : Failure → Step α} (hx : Keeps R x.run)
    (hf : ∀ why, Keeps R (f why).run) : Keeps R (tryCatch x f).run := by
  intro w
  rw [after_step_catch]
  cases answer x.run w with
  | ok a => exact hx w
  | error why => exact hR.trans (hx w) (hf why (after x.run w))

theorem call {s : Conditions} {during : Option String} {op : Operation} {act : Step α}
    (hop : ∀ fault, Made.saved? ⟨⟨during, op⟩, fault⟩ = none) (hact : Keeps R act.run) :
    Keeps R (call s during op act).run := by
  refine hR.step_bind (lift fun w => hR.noted w _ _ (hop _)) fun fault => ?_
  split
  · exact hR.throw _
  · exact hact

/-- A call that only asks something. -/
theorem read {s : Conditions} {during : Option String} {op : Operation} {f : Cluster → α}
    (hop : ∀ fault, Made.saved? ⟨⟨during, op⟩, fault⟩ = none) :
    Keeps R (Poll.call s during op (do return f (← cluster))).run :=
  hR.call hop hR.refl

/-- A call that changes the cluster. -/
theorem change {s : Conditions} {during : Option String} {op : Operation}
    {f : Cluster → Cluster} (hop : ∀ fault, Made.saved? ⟨⟨during, op⟩, fault⟩ = none)
    (hf : ∀ w : World, R w { w with cluster := f w.cluster }) :
    Keeps R (Poll.call s during op (changeCluster f)).run :=
  hR.call hop hf

/-- A call that changes the cluster unless the change is refused. -/
theorem tryChange {s : Conditions} {during : Option String} {op : Operation}
    {f : Cluster → Except Failure Cluster}
    (hop : ∀ fault, Made.saved? ⟨⟨during, op⟩, fault⟩ = none)
    (hf : ∀ (w : World) c, f w.cluster = .ok c → R w { w with cluster := c }) :
    Keeps R (Poll.call s during op (tryChange f)).run := by
  refine hR.call hop fun w => ?_
  cases hc : f w.cluster with
  | ok c =>
      rw [(run_tryChange_ok hc).2]
      exact hf w c hc
  | error why =>
      rw [(run_tryChange_error hc).2]
      exact hR.refl w

end Frame

end Lapse.Poll
