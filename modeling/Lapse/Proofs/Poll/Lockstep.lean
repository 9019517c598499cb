import Lapse.Proofs.Poll.Schedule

/-!
# Steps in lockstep

Two runs of a step under different conditions are compared by a relation of their worlds: from
related worlds both answer the same and leave related worlds.  The relation sees neither the log nor
the calls made, so that the parts of a step are compared one after another: a call that meets no
fault by what it does, and what follows a question by what is done with the answers.
-/

namespace Lapse.Poll

variable {α β γ : Type} {s s₁ s₂ : Conditions} {r : String} {P M Q : World → World → Prop}

/-- No call of the poll itself, and no call of a revert for a request, meets a fault. -/
def Conditions.Favours (s : Conditions) (r : String) : Prop :=
  ∀ n c, c.operation.isOwn = true ∨ c.during = some r → s.faults n c = none

theorem Conditions.Favours.sparesPoll (hs : s.Favours r) : s.SparesPoll :=
  fun n c _ hown h => nomatch (hs n c (.inl hown)).symm.trans h

theorem Conditions.Favours.call (hs : s.Favours r) (n : Nat) (op : Operation) :
    s.faults n ⟨some r, op⟩ = none := hs n _ (.inr rfl)

theorem Conditions.Favours.spares (hs : s.Favours r) : s.Spares (some r) :=
  fun n op _ h => nomatch (hs.call n op).symm.trans h

/-! ## Relations of worlds -/

/-- Nothing changed but the log, and the calls made. -/
structure Still (w w' : World) : Prop where
  store : w'.store = w.store
  cluster : w'.cluster = w.cluster
  minted : w'.minted = w.minted

theorem Still.note (w : World) (c : Call) (fault : Option Fault) : Still w (w.note c fault) :=
  ⟨rfl, rfl, rfl⟩

theorem Still.logged (w : World) (lines : List LogLine) : Still w (w.logged lines) :=
  ⟨rfl, rfl, rfl⟩

/-- A relation that sees neither the log nor the calls made. -/
def Blind (P : World → World → Prop) : Prop :=
  ∀ ⦃w₁ w₂ w₁' w₂'⦄, P w₁ w₂ → Still w₁ w₁' → Still w₂ w₂' → P w₁' w₂'

/-- Two changes are both refused for the same reason, or both made with related outcomes. -/
inductive Both {ε : Type} (A : α → β → Prop) : Except ε α → Except ε β → Prop
  | error (why : ε) : Both A (.error why) (.error why)
  | ok {a b} (related : A a b) : Both A (.ok a) (.ok b)

theorem Both.imp {ε : Type} {A B : α → β → Prop} {x : Except ε α} {y : Except ε β}
    (h : Both A x y) (himp : ∀ a b, x = .ok a → y = .ok b → A a b → B a b) : Both B x y := by
  cases h with
  | error why => exact .error why
  | ok related => exact .ok (himp _ _ rfl rfl related)

/-- From worlds related by `P` two steps answer the same, and leave worlds related by `Q`. -/
def Lockstep (P Q : World → World → Prop) (x₁ x₂ : Step α) : Prop :=
  ∀ w₁ w₂, P w₁ w₂ →
    answer x₁.run w₁ = answer x₂.run w₂ ∧ Q (after x₁.run w₁) (after x₂.run w₂)

namespace Lockstep

variable {x₁ x₂ : Step α} {f₁ f₂ : α → Step β}

theorem pure (a : α) : Lockstep P P (Pure.pure a) (Pure.pure a) := fun _ _ h => ⟨rfl, h⟩

theorem throw (why : Failure) :
    Lockstep P P (MonadExcept.throw why : Step α) (MonadExcept.throw why) := fun _ _ h => ⟨rfl, h⟩

theorem mono (h : Lockstep P M x₁ x₂) (himp : ∀ w₁ w₂, M w₁ w₂ → Q w₁ w₂) :
    Lockstep P Q x₁ x₂ := by
  intro w₁ w₂ hP
  obtain ⟨hanswer, hM⟩ := h w₁ w₂ hP
  exact ⟨hanswer, himp _ _ hM⟩

/-- What two runs say need not be the same. -/
theorem say (hP : Blind P) (level : Level) (message₁ message₂ : String) :
    Lockstep P P (liftM (World.say level message₁)) (liftM (World.say level message₂)) :=
  fun w₁ w₂ h => ⟨rfl, hP h (.logged w₁ _) (.logged w₂ _)⟩

theorem bind (hx : Lockstep P M x₁ x₂) (hf : ∀ a, Lockstep M Q (f₁ a) (f₂ a))
    (himp : ∀ w₁ w₂, M w₁ w₂ → Q w₁ w₂) : Lockstep P Q (x₁ >>= f₁) (x₂ >>= f₂) := by
  intro w₁ w₂ hP
  obtain ⟨hanswer, hM⟩ := hx w₁ w₂ hP
  rw [answer_step_bind, answer_step_bind, after_step_bind, after_step_bind, ← hanswer]
  cases answer x₁.run w₁ with
  | ok a => exact hf a _ _ hM
  | error why => exact ⟨rfl, himp _ _ hM⟩

/-- A step after which nothing changes the relation. -/
theorem andThen (hx : Lockstep P Q x₁ x₂) (hf : ∀ a, Lockstep Q Q (f₁ a) (f₂ a)) :
    Lockstep P Q (x₁ >>= f₁) (x₂ >>= f₂) := hx.bind hf fun _ _ h => h

theorem caught {f₁ f₂ : Failure → Step α} (hx : Lockstep P Q x₁ x₂)
    (hf : ∀ why, Lockstep Q Q (f₁ why) (f₂ why)) :
    Lockstep P Q (tryCatch x₁ f₁) (tryCatch x₂ f₂) := by
  intro w₁ w₂ hP
  obtain ⟨hanswer, hQ⟩ := hx w₁ w₂ hP
  rw [answer_step_catch, answer_step_catch, after_step_catch, after_step_catch, ← hanswer]
  cases answer x₁.run w₁ with
  | ok a => exact ⟨rfl, hQ⟩
  | error why => exact hf why _ _ hQ

/-- What follows looking at the world is compared by what is done with it. -/
theorem get {f₁ f₂ : World → Step β} (h : ∀ w₁ w₂, P w₁ w₂ → Lockstep P Q (f₁ w₁) (f₂ w₂)) :
    Lockstep P Q (MonadState.get >>= f₁) (MonadState.get >>= f₂) := by
  intro w₁ w₂ hP
  rw [answer_step_bind_ok (a := w₁) rfl, answer_step_bind_ok (a := w₂) rfl,
    after_step_bind_ok (a := w₁) rfl, after_step_bind_ok (a := w₂) rfl]
  exact h w₁ w₂ hP w₁ w₂ hP

section Call

variable (hs₁ : s₁.Favours r) (hs₂ : s₂.Favours r) (hP : Blind P) {op₁ op₂ : Operation}

include hs₁ hs₂ hP

theorem call (h : Lockstep P Q x₁ x₂) :
    Lockstep P Q (Poll.call s₁ (some r) op₁ x₁) (Poll.call s₂ (some r) op₂ x₂) := by
  intro w₁ w₂ hw
  have hrun₁ := run_call_ok (hs₁.spares w₁.calls op₁) x₁
  have hrun₂ := run_call_ok (hs₂.spares w₂.calls op₂) x₂
  rw [hrun₁.1, hrun₁.2, hrun₂.1, hrun₂.2]
  exact h _ _ (hP hw (.note w₁ _ _) (.note w₂ _ _))

/-- What follows a question to the cluster is compared by what is done with the answers. -/
theorem read {f : Cluster → γ} {k₁ k₂ : γ → Step β}
    (h : ∀ w₁ w₂, P w₁ w₂ → Lockstep P Q (k₁ (f w₁.cluster)) (k₂ (f w₂.cluster))) :
    Lockstep P Q (Poll.call s₁ (some r) op₁ (do return f (← cluster)) >>= k₁)
      (Poll.call s₂ (some r) op₂ (do return f (← cluster)) >>= k₂) := by
  intro w₁ w₂ hw
  have hrun₁ := run_call_ok (hs₁.spares w₁.calls op₁) (do return f (← cluster))
  have hrun₂ := run_call_ok (hs₂.spares w₂.calls op₂) (do return f (← cluster))
  rw [answer_step_bind_ok hrun₁.1, answer_step_bind_ok hrun₂.1, after_step_bind_ok hrun₁.1,
    after_step_bind_ok hrun₂.1, hrun₁.2, hrun₂.2]
  exact h w₁ w₂ hw _ _ (hP hw (.note w₁ _ _) (.note w₂ _ _))

theorem change {f₁ f₂ : Cluster → Cluster}
    (h : ∀ w₁ w₂, P w₁ w₂ →
      P { w₁ with cluster := f₁ w₁.cluster } { w₂ with cluster := f₂ w₂.cluster }) :
    Lockstep P P (Poll.call s₁ (some r) op₁ (changeCluster f₁))
      (Poll.call s₂ (some r) op₂ (changeCluster f₂)) :=
  call hs₁ hs₂ hP fun w₁ w₂ hw => ⟨rfl, h w₁ w₂ hw⟩

theorem tryChange {f₁ f₂ : Cluster → Except Failure Cluster}
    (h : ∀ w₁ w₂, P w₁ w₂ →
      Both (fun c₁ c₂ => P { w₁ with cluster := c₁ } { w₂ with cluster := c₂ })
        (f₁ w₁.cluster) (f₂ w₂.cluster)) :
    Lockstep P P (Poll.call s₁ (some r) op₁ (Poll.tryChange f₁))
      (Poll.call s₂ (some r) op₂ (Poll.tryChange f₂)) := by
  refine call hs₁ hs₂ hP fun w₁ w₂ hw => ?_
  have hboth := h w₁ w₂ hw
  generalize hx₁ : f₁ w₁.cluster = y₁ at hboth
  generalize hx₂ : f₂ w₂.cluster = y₂ at hboth
  cases hboth with
  | error why =>
      rw [(run_tryChange_error hx₁).1, (run_tryChange_error hx₁).2, (run_tryChange_error hx₂).1,
        (run_tryChange_error hx₂).2]
      exact ⟨rfl, hw⟩
  | ok related =>
      rw [(run_tryChange_ok hx₁).1, (run_tryChange_ok hx₁).2, (run_tryChange_ok hx₂).1,
        (run_tryChange_ok hx₂).2]
      exact ⟨rfl, related⟩

end Call

end Lockstep

end Lapse.Poll
