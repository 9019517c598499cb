import Lapse.Failure
import Lapse.Log

/-!
# Work for the leader alone

A task that only the leader of the cluster may do is tried in ticks.  A tick asks for leadership,
takes the lock that all such tasks share, and asks again, since leadership may move while it waits.
When a task breaks off in the middle the lock is spoilt, and no later tick gets it.
-/

namespace Lapse.Leader

/-- What happens in a tick, as far as others can see it. -/
inductive Event where
  /-- A line is logged. -/
  | said (line : LogLine)
  /-- The task runs. -/
  | worked
  deriving DecidableEq

/-- What the ticks share: how many answers about leadership were taken, whether the lock is spoilt,
and what happened so far, in order. -/
structure State where
  asked : Nat := 0
  spoilt : Bool := false
  events : List Event := []
  deriving DecidableEq

/-- How a tick ended. -/
inductive Outcome where
  | notLeader
  /-- The task ran to its end. -/
  | ran
  /-- The task broke off. -/
  | broke
  | failed (why : Failure)
  deriving DecidableEq

/-- Log a line. -/
def State.say (st : State) (level : Level) (message : String) : State :=
  { st with events := st.events ++ [.said ⟨level, message⟩] }

/-- Let the task run. -/
def State.work (st : State) : State := { st with events := st.events ++ [.worked] }

/-- The lines that were logged. -/
def State.log (st : State) : List LogLine :=
  st.events.filterMap fun
    | .said line => some line
    | .worked => none

/-- Whether a tick that ended so ran its task. -/
def Outcome.isRun : Outcome → Bool
  | .ran | .broke => true
  | _ => false

/-- One tick of the task `name`.  `latch n` is the n-th answer to the question of leadership, and
`breaks` says whether the task would break off now. -/
def tick (name : String) (latch : Nat → Bool) (breaks : Bool) (st : State) : Outcome × State :=
  let first := latch st.asked
  let st := { st with asked := st.asked + 1 }
  if !first then (.notLeader, st.say .debug ("skipping " ++ name ++ ": not the leader"))
  else if st.spoilt then (.failed (.store "scheduler lock poisoned"), st)
  else
    let second := latch st.asked
    let st := { st with asked := st.asked + 1 }
    if !second then (.notLeader, st.say .debug ("lost leadership before running " ++ name))
    else if breaks then (.broke, { st.work with spoilt := true })
    else (.ran, st.work.say .debug (name ++ " ran"))

/-- Ticks one after another, the n-th of them breaking off if `breaks` says so. -/
def ticks (name : String) (latch : Nat → Bool) (breaks : Nat → Bool) :
    (first count : Nat) → State → List (Outcome × State)
  | _, 0, _ => []
  | n, count + 1, st =>
    let result := tick name latch (breaks n) st
    result :: ticks name latch breaks (n + 1) count result.2

/-- A tick inside the loop: a failure is logged and does not end the loop. -/
def loopTick (name : String) (latch : Nat → Bool) (st : State) : Outcome × State :=
  match tick name latch false st with
  | (.failed why, st) => (.failed why, st.say .error (name ++ " tick failed"))
  | result => result

/-- The loop from an instant on: it ticks there if the shutdown has not come by then, and goes on an
interval later.  The answer lists the ticks, each with its instant. -/
def loopFrom (name : String) (latch : Nat → Bool) (interval shutdown instant : Nat) (st : State) :
    List (Nat × Outcome) × State :=
  if 0 < interval ∧ instant < shutdown then
    let (outcome, st) := loopTick name latch st
    let (later, st) := loopFrom name latch interval shutdown (instant + interval) st
    ((instant, outcome) :: later, st)
  else ([], st)
termination_by shutdown - instant

/-- The loop: a tick at once and at every multiple of `interval`, until it is shut down.  Without an
interval it does nothing.  The answer is the number of ticks that ran the task. -/
def run (name : String) (latch : Nat → Bool) (interval shutdown : Nat) (st : State) :
    Nat × State :=
  if interval = 0 then (0, st.say .warn (name ++ " disabled: poll interval is zero"))
  else
    let (ticks, st) :=
      loopFrom name latch interval shutdown 0 (st.say .info ("starting " ++ name))
    (ticks.countP (·.2.isRun), st.say .info ("stopping " ++ name))

/-- The latch of a process that is alone. -/
def alone : Nat → Bool := fun _ => true

end Lapse.Leader
