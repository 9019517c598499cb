import Lapse.Command.Invocation
import Lapse.Store.Image
import Lapse.Text.Uuid
import Std.Time.DateTime.Timestamp

/-!
# The program

What a command may look at is copied from the disk into a tree of files; the command runs on the
tree, and what it changed there is written back.  A file is written beside its place first and then
moved there.
-/

namespace Lapse.Program

open Lapse.Files

/-- The name of the file of a store. -/
def storeName : String := "expiring.db"

/-- The locations that the parts of a path lead through. -/
def visited (here : Location) : List String → List Location
  | [] => []
  | part :: rest =>
    let next :=
      if Tree.stays part then here
      else if part = ".." then here.dropLast
      else here ++ [part]
    next :: visited next rest

/-- What is on the disk at a location. -/
def look (here : Location) : IO (Option Entry) := do
  let place := (← IO.currentDir) / Root.pathOf here
  if ← place.isDir then return some .directory
  if !(← place.pathExists) then return none
  let bytes := (← IO.FS.readBinFile place).toList
  if here.getLast? = some storeName then
    match Store.ofBytes? bytes with
    | some store => return some (.table store)
    | none => return some (.file bytes)
  return some (.file bytes)

/-- Copy what is on the disk at locations into a tree. -/
def copyIn (t : Tree) : List Location → IO Tree
  | [] => return t
  | here :: rest => do
    let t ←
      if here.isEmpty then pure t
      else do
        match ← look here with
        | some entry => pure (t.insert here entry)
        | none => pure (t.erase here)
    copyIn t rest

/-- Write bytes to the disk. -/
def writeOut (here : Location) (bytes : Bytes) : IO Unit := do
  let current ← IO.currentDir
  let beside := current / (Root.pathOf here ++ ".new")
  IO.FS.writeBinFile beside ⟨bytes.toArray⟩
  IO.FS.rename beside (current / Root.pathOf here)

/-- Write an entry of a tree to the disk. -/
def copyOut (here : Location) : Entry → IO Unit
  | .directory => do IO.FS.createDirAll ((← IO.currentDir) / Root.pathOf here)
  | .file bytes => writeOut here bytes
  | .table store => writeOut here store.toBytes

/-- Write what differs between two trees. -/
def commit (old new : Tree) : IO Unit := do
  for (here, entry) in new.entries do
    if old.get? here ≠ some entry then copyOut here entry

/-- The locations that commands look at below a root. -/
def locations (cwd : Location) (root : String) : List Location :=
  [Root.configFile root, Root.clusterFile root, Root.storeFile root].flatMap fun path =>
    visited (Tree.start cwd path) (Tree.parts path)

/-- How important a level is, the greatest number for the least important. -/
def rank : Level → Nat
  | .error => 0
  | .warn => 1
  | .info => 2
  | .debug => 3

/-- The name of a level. -/
def levelName : Level → String
  | .error => "ERROR"
  | .warn => "WARN"
  | .info => "INFO"
  | .debug => "DEBUG"

/-- A number at random. -/
def draw : IO Nat := do
  return (← IO.getRandomBytes 16).toList.foldl (fun n b => n * 256 + b.toNat) 0

/-- What a command finds around it now. -/
def settingNow (cwd : Location) : IO Command.Setting := do
  let now := (← Std.Time.Timestamp.now).toMillisecondsSinceUnixEpoch.toInt
  let seed ← draw
  return { cwd, wall := Int64.ofInt now, freshId := fun n => Uuid.text (seed + n) }

/-- Run a command, or a part of one, on the files as they are on the disk. -/
def perform {α : Type} (cwd : Location) (root : String) (loudest : Level)
    (act : Command.Setting → Command.Effect α) : IO (Except Command.Trouble α) := do
  let old ← copyIn .empty (visited [] cwd ++ locations cwd root)
  let setting ← settingNow cwd
  let (result, m) := Id.run ((act setting).run { files := old })
  commit old m.files
  for line in m.log do
    if rank line.level ≤ rank loudest then IO.eprintln s!"{levelName line.level} {line.message}"
  for line in m.output do IO.println line
  return result

/-- Poll again and again. -/
partial def loop (cwd : Location) (root : String) (config : Config) (place : Location) :
    IO Unit := do
  let (_, tick) := Leader.loopTick Command.pollerName Leader.alone {}
  let _ ← perform cwd root .info fun s =>
    Command.follow (Command.loopPass s root config place) tick.events none
  IO.sleep (UInt32.ofNat (min config.everyMillis.toNat (UInt32.size - 1)))
  loop cwd root config place

/-- The code that a command ends with. -/
def endWith {α : Type} : Except Command.Trouble α → IO UInt32
  | .ok _ => return 0
  | .error trouble => do
    IO.eprintln ("error: " ++ trouble.message)
    return 1

/-- The root that a command line is about. -/
def rootOf (cwd : Location) (i : Command.Invocation) : IO String := do
  let t ← copyIn .empty ((Root.ancestors cwd).map (· ++ [Root.stateName]))
  return Root.resolve t cwd i.root

/-- Run a command. -/
def invoke (cwd : Location) (i : Command.Invocation) : IO UInt32 := do
  let root ← rootOf cwd i
  match i.verb with
  | .poll => endWith (← perform cwd root .info fun s => Command.poll s root i.json)
  | .list kind => endWith (← perform cwd root .warn fun s => Command.list s root kind i.json)
  | .daemon everyMillis =>
    match ← perform cwd root .info fun s => Command.startLoop s root everyMillis with
    | .error trouble => endWith (.error trouble : Except Command.Trouble Unit)
    | .ok (config, place) =>
      if config.everyMillis = 0 then
        IO.eprintln s!"WARN {Command.pollerName} disabled: poll interval is zero"
      else
        IO.eprintln s!"INFO starting {Command.pollerName}"
        loop cwd root config place
      return 0

end Lapse.Program

/-- Run a command line. -/
def main (args : List String) : IO UInt32 := do
  let environment ← IO.getEnv "EXPIRY_ROOT"
  let parts := Lapse.Files.Tree.parts (← IO.currentDir).toString
  let cwd := parts.filter fun part => !Lapse.Files.Tree.stays part
  match Lapse.Command.readArguments environment args with
  | .error .misuse => do
    for line in Lapse.Command.helpLines do IO.eprintln line
    return 2
  | .error .help => do
    for line in Lapse.Command.helpLines do IO.println line
    return 0
  | .ok i => Lapse.Program.invoke cwd i
