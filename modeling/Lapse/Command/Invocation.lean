import Lapse.Command.Arguments
import Lapse.Command.Daemon
import Lapse.Command.List

/-!
# Running a command line

A command line is read, its root is found, and its command runs.  A command that stops with a failure
ends with the code 1, and a command line that is misused ends with the code 2 and does nothing.
-/

namespace Lapse.Command

/-- The lines of help. -/
def helpLines : List String :=
  ["Revert expired user actions (bounce, pause, scale, skip healthchecks)",
    "",
    "Usage: expiry [OPTIONS] <COMMAND>",
    "",
    "Commands:",
    "  poll    Run a single poll pass and print what it did",
    "  daemon  Poll periodically until interrupted",
    "  list    List stored expiring actions with their deadlines",
    "",
    "Options:",
    "      --root <ROOT>  State root (default: auto-detect from .expiry/)",
    "  -j, --json         Output as JSON"]

/-- Run a command against a root.  A loop lasts `shutdown` milliseconds. -/
def perform (s : Setting) (shutdown : Nat) (root : String) (i : Invocation) : Effect Unit :=
  match i.verb with
  | .poll => poll s root i.json
  | .daemon everyMillis => daemon s root everyMillis shutdown
  | .list kind => list s root kind i.json

/-- How a command line ends. -/
structure Ending where
  code : Nat
  trouble : Option Trouble := none

/-- Run a command line. -/
def run (s : Setting) (environment : Option String) (shutdown : Nat) (args : List String)
    (m : Machine) : Ending × Machine :=
  match readArguments environment args with
  | .error .misuse => ({ code := 2 }, m)
  | .error .help => ({ code := 0 }, { m with output := m.output ++ helpLines })
  | .ok i =>
    let root := Root.resolve m.files s.cwd i.root
    match Id.run ((perform s shutdown root i).run m) with
    | (.ok (), m) => ({ code := 0 }, m)
    | (.error trouble, m) => ({ code := 1, trouble := some trouble }, m)

end Lapse.Command
