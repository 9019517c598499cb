import Lapse.Calendar
import Lapse.Command.Machine
import Lapse.Text.Table

/-!
# The command that polls once

The settings are read and the store is opened; then the leader's task, which is this process's alone,
polls once, and the report is printed as a table or as JSON.
-/

namespace Lapse.Command

/-- The headers of a report. -/
def reportHeaders : List String :=
  ["KIND", "SEEN", "NOT DUE", "APPLIED", "SKIPPED", "FAILED", "NO REQUEST", "MALFORMED", "DELETED",
    "ERROR"]

/-- A number in decimal. -/
def numberText (n : Nat) : String := String.ofList (Decimal.digits n)

/-- The row of a kind in a report. -/
def reportRow (t : Poll.Tally) : List String :=
  t.kind.name ::
    [t.examined, t.notDue, t.applied, t.skipped, t.failed, t.missingRequest, t.malformed,
      t.deleted].map (fun n => numberText n.toNat) ++
    [t.error.getD ""]

/-- The lines of a report. -/
def reportLines (r : Poll.Report) : List String :=
  ("Polled at " ++ Instant.text r.now) :: Table.lines reportHeaders (r.kinds.map reportRow)

/-- Go through what happens in ticks: log what is said, and do the task where it runs.  The answer
is that of the last time it ran. -/
def follow {α : Type} (task : Effect α) : List Leader.Event → Option α → Effect (Option α)
  | [], last => return last
  | .said line :: rest, last => do
    say [line]
    follow task rest last
  | .worked :: rest, _ => do follow task rest (some (← task))

/-- Let a part of a command stop by itself; the command goes on with its result. -/
def attempt {α : Type} (act : Effect α) : Effect (Except Trouble α) :=
  fun m => let (result, m) := act m; (.ok result, m)

/-- Poll once and print the report. -/
def poll (s : Setting) (root : String) (json : Bool) : Effect Unit := do
  let config ← loadConfig s root
  let (place, _) ← openStore s root
  let (_, tick) := Leader.tick pollerName Leader.alone false {}
  match ← follow (attempt (pass s root config place)) tick.events none with
  | none => return
  | some (.error trouble) => throw trouble
  | some (.ok report) => if json then printJson report else print (reportLines report)

end Lapse.Command
