import Lapse.Command.Poll

/-!
# The command that polls again and again

A first poll comes at once and the next ones at multiples of the interval, until the process is
interrupted.  A poll that fails is logged and does not end the loop.
-/

namespace Lapse.Command

/-- What is logged after a poll of the loop. -/
def passLines : Except Trouble Poll.Report → List LogLine
  | .error trouble => [⟨.error, "poll pass failed: " ++ trouble.message⟩]
  | .ok report =>
    (if report.hasErrors then [⟨.warn, "poll pass finished with store errors"⟩] else []) ++
    (if report.deleted > 0 then
      [⟨.info, "expired " ++ numberText report.deleted.toNat ++ " action(s)"⟩]
    else [])

/-- One poll of the loop. -/
def loopPass (s : Setting) (root : String) (config : Config) (place : Files.Location) :
    Effect Unit := do
  say (passLines (← attempt (pass s root config place)))

/-- What comes before the first poll of the loop: the settings with the interval that was asked for,
and the place of the store.  A cluster that cannot be read is noticed here. -/
def startLoop (s : Setting) (root : String) (everyMillis : Option UInt64) :
    Effect (Config × Files.Location) := do
  let config ← loadConfig s root
  let config := { config with everyMillis := everyMillis.getD config.everyMillis }
  let _ ← loadCluster s root
  let (place, _) ← openStore s root
  return (config, place)

/-- Poll every so many milliseconds, until `shutdown` milliseconds have passed. -/
def daemon (s : Setting) (root : String) (everyMillis : Option UInt64) (shutdown : Nat) :
    Effect Unit := do
  let (config, place) ← startLoop s root everyMillis
  let (_, loop) :=
    Leader.run pollerName Leader.alone config.everyMillis.toNat shutdown {}
  let _ ← follow (loopPass s root config place) loop.events none

end Lapse.Command
