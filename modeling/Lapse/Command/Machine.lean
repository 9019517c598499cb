import Lapse.Leader
import Lapse.Poll.Pass
import Lapse.Root.Contents

/-!
# What commands work on

A command reads and changes the files, logs lines and prints lines.  It may stop with a failure, and
then what it did before stays done.  A failure that a part of a command met is shown after the
words that say what that part was to do.
-/

namespace Lapse.Command

open Lapse.Files

/-- Everything a command changes. -/
structure Machine where
  files : Tree := .empty
  /-- How many fresh action ids are in use. -/
  minted : Nat := 0
  log : List LogLine := []
  /-- The lines printed. -/
  output : List String := []

/-- What a command finds around it. -/
structure Setting where
  /-- The current directory. -/
  cwd : Location
  /-- What the wall clock shows. -/
  wall : Int64
  /-- The supply of action ids that are not yet in use. -/
  freshId : Nat → String
  /-- Which calls of a poll go wrong. -/
  faults : Poll.Faults := fun _ _ => none

/-- Why a command stopped. -/
structure Trouble where
  /-- What was to be done. -/
  context : Option String := none
  cause : Failure
  deriving DecidableEq

/-- The message that reports why a command stopped. -/
def Trouble.message (t : Trouble) : String :=
  match t.context with
  | none => t.cause.message
  | some context => context ++ ": " ++ t.cause.message

/-- A command, or a part of one. -/
abbrev Effect (α : Type) := ExceptT Trouble (StateM Machine) α

/-- Log lines. -/
def say (lines : List LogLine) : Effect Unit := modify fun m => { m with log := m.log ++ lines }

/-- Print lines. -/
def print (lines : List String) : Effect Unit :=
  modify fun m => { m with output := m.output ++ lines }

/-- Print data as JSON. -/
def printJson {α : Type} [ToData α] (a : α) : Effect Unit := print [Json.prettyText a]

/-- Go on with a result, or stop with its failure. -/
def orStop {α : Type} (context : Option String) : Except Failure α → Effect α
  | .ok a => return a
  | .error cause => throw { context, cause }

/-- The files as they are. -/
def files : Effect Tree := return (← get).files

/-- Change the files, and go on with the result or stop with its failure. -/
def change {α : Type} (context : Option String) (f : Tree → Tree × Except Failure α) : Effect α := do
  let (t, result) := f (← files)
  modify fun m => { m with files := t }
  orStop context result

/-! ## Parts of several commands -/

/-- The line that reports a finding about the settings. -/
def findingLine (f : Config.Finding) : LogLine :=
  ⟨match f.severity with
    | .error => .error
    | .warning => .warn, "config: " ++ f.message⟩

/-- The settings; what is wrong with them is logged. -/
def loadConfig (s : Setting) (root : String) : Effect Config := do
  let config ← orStop (some "failed to load config") (Root.loadConfig (← files) s.cwd root)
  say (config.findings.map findingLine)
  return config

/-- The cluster. -/
def loadCluster (s : Setting) (root : String) : Effect Cluster := do
  orStop (some "failed to load cluster state") (Root.loadCluster (← files) s.cwd root)

/-- Write the cluster. -/
def saveCluster (s : Setting) (root : String) (cluster : Cluster) : Effect Unit :=
  change (some "failed to save cluster state") fun t => Root.saveCluster t s.cwd root cluster

/-- Open the store. -/
def openStore (s : Setting) (root : String) : Effect (Location × Store) :=
  change (some "failed to open expiring action store") fun t => Root.openStore t s.cwd root

/-- The store that was opened at a location. -/
def storeAt (place : Location) : Effect Store := do
  orStop none (Root.storeAt (← files) place)

/-- Keep the store that was opened at a location. -/
def keepStore (place : Location) (store : Store) : Effect Unit :=
  modify fun m => { m with files := m.files.insert place (.table store) }

/-- The name of the task that polls. -/
def pollerName : String := "expiring user action poller"

/-- One poll of the cluster as its file has it now, which is written back. -/
def pass (s : Setting) (root : String) (config : Config) (place : Location) :
    Effect Poll.Report := do
  let cluster ← loadCluster s root
  let store ← storeAt place
  let m ← get
  let world : Poll.World := { store, cluster, minted := m.minted, log := m.log }
  let conditions : Poll.Conditions :=
    { config, now := s.wall, wall := s.wall, freshId := s.freshId, faults := s.faults }
  let (report, world) := Id.run ((Poll.pollAndSum conditions).run world)
  set { m with minted := world.minted, log := world.log }
  keepStore place world.store
  saveCluster s root world.cluster
  return report

end Lapse.Command
