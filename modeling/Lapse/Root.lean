import Lapse.Files.Tree

/-!
# Roots

A root is a directory, given by its path, that holds a state directory; the settings, the cluster and
the store of expiring actions are files in it.  Without a root of its own, a command takes the
nearest directory at or above the current one that has a state directory.
-/

namespace Lapse.Root

open Lapse.Files

/-- A path below another one. -/
def join (root name : String) : String :=
  if root.isEmpty || root.toList.getLast? = some '/' then root ++ name else root ++ "/" ++ name

/-- The name of the state directory. -/
def stateName : String := ".expiry"

/-- The state directory. -/
def directory (root : String) : String := join root stateName

/-- The file of the settings. -/
def configFile (root : String) : String := join root ".expiry/config.yaml"

/-- The file of the cluster. -/
def clusterFile (root : String) : String := join root ".expiry/cluster.yaml"

/-- The file of the store of expiring actions. -/
def storeFile (root : String) : String := join root ".expiry/expiring.db"

/-- The absolute path of a location. -/
def pathOf (here : Location) : String :=
  if here.isEmpty then "/" else String.join (here.map fun name => "/" ++ name)

/-- A location and all those above it, the nearest first. -/
def ancestors (here : Location) : List Location :=
  (List.range (here.length + 1)).reverse.map here.take

/-- Whether a location has a state directory. -/
def hasState (t : Tree) (here : Location) : Bool := t.isDirectory (here ++ [stateName])

/-- The location above another one; the top has none above it. -/
def above? (here : Location) : Option Location := if here.isEmpty then none else some here.dropLast

theorem length_of_above? {here up : Location} (h : above? here = some up) :
    up.length < here.length := by
  cases here with
  | nil => exact nomatch h
  | cons name rest =>
      obtain rfl : (name :: rest).dropLast = up := Option.some.inj h
      rw [List.length_dropLast]
      exact Nat.lt_succ_self _

/-- The first location with a state directory on the way up from a location. -/
def climb (t : Tree) (here : Location) : Option Location :=
  if hasState t here then some here
  else
    match _step : above? here with
    | none => none
    | some up => climb t up
termination_by here.length
decreasing_by exact length_of_above? _step

/-- The location nearest to the current one that has a state directory, or else the current one. -/
def nearest (t : Tree) (cwd : Location) : Location := (climb t cwd).getD cwd

/-- The root that a command works on: the one that it was given, if any. -/
def resolve (t : Tree) (cwd : Location) (given : Option String) : String :=
  given.getD (pathOf (nearest t cwd))

end Lapse.Root
