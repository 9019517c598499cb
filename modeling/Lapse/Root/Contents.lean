import Lapse.Cluster
import Lapse.Config
import Lapse.Root
import Lapse.Yaml.Layout
import Lapse.Yaml.Reading

/-!
# What a root holds

The settings and the cluster are YAML files, and the store is a table.  Without a file of settings
the defaults hold; without a file of the cluster nothing can be polled.  The store is made when it is
first opened.
-/

namespace Lapse.Root

open Lapse.Files

/-- Read a type from the bytes of a YAML file. -/
def decodeFile {α : Type} [Readable α] (bytes : Bytes) : Except Failure α :=
  match Utf8.decode? bytes with
  | none => .error .files
  | some text =>
    match Yaml.decode text with
    | none => .error .yaml
    | some a => .ok a

/-- The settings. -/
def loadConfig (t : Tree) (cwd : Location) (root : String) : Except Failure Config :=
  match t.find? cwd (configFile root) with
  | none => .ok {}
  | some _ => do decodeFile (← t.read cwd (configFile root))

/-- Write the settings. -/
def saveConfig (t : Tree) (cwd : Location) (root : String) (config : Config) :
    Tree × Except Failure Unit :=
  t.write cwd (configFile root) (Yaml.encode config)

/-- The cluster. -/
def loadCluster (t : Tree) (cwd : Location) (root : String) : Except Failure Cluster :=
  match t.find? cwd (clusterFile root) with
  | none => .error (.notInitialized (clusterFile root))
  | some _ => do decodeFile (← t.read cwd (clusterFile root))

/-- Write the cluster. -/
def saveCluster (t : Tree) (cwd : Location) (root : String) (cluster : Cluster) :
    Tree × Except Failure Unit :=
  t.write cwd (clusterFile root) (Yaml.encode cluster)

/-- The store in the file that a path leads to; an empty file is a store that was never used. -/
def storeAt (t : Tree) (place : Location) : Except Failure Store :=
  match t.entry? place with
  | none => .ok .empty
  | some (.file []) => .ok .empty
  | some (.table store) => .ok store
  | some _ => .error (.store "not a table of actions")

/-- Open the store, and make its file unless it is there.  The answer also tells where it is. -/
def openStore (t : Tree) (cwd : Location) (root : String) :
    Tree × Except Failure (Location × Store) :=
  let path := storeFile root
  match t.makeParts (Tree.start cwd path) (Tree.parentParts path) with
  | (t, none) => (t, .error .files)
  | (t, some parent) =>
    match Tree.lastName? path with
    | none => (t, .error .files)
    | some name =>
      let place := parent ++ [name]
      match storeAt t place with
      | .error why => (t, .error why)
      | .ok store => (t.insert place (.table store), .ok (place, store))

end Lapse.Root
