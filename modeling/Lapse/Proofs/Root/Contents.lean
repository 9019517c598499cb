import Lapse.Root.Contents
import Lapse.Proofs.Files.Tree
import Lapse.Proofs.Yaml.Reading

/-!
# Saving and loading the cluster

What is saved is loaded again: the file is written wherever one can be, its path then leads to it, and
its text is read as the cluster that it was written for, whatever texts and numbers are in it.
-/

namespace Lapse.Root

open Lapse.Files

/-- The bytes of a value are read as the value. -/
theorem decodeFile_encode {α : Type} [ToData α] [Readable α] (h : Yaml.ReadsBack α) (a : α) :
    decodeFile (Yaml.encode a) = .ok a := by
  rw [decodeFile, Yaml.encode, Utf8.decode?_encodeChars]
  dsimp only
  rw [Yaml.decode_layout h]

/-- **SURVIVAL**: in a tree in which everything stands in a directory, every cluster is saved where a
file can be written for it, and loading it gives the same cluster. -/
theorem loadCluster_saveCluster {t : Tree} {cwd : Location} {root : String} (hsound : t.Sound)
    (hcwd : t.isDirectory cwd = true) (hfile : t.Writable cwd (clusterFile root)) (c : Cluster) :
    ∃ t', saveCluster t cwd root c = (t', .ok ()) ∧ loadCluster t' cwd root = .ok c := by
  obtain ⟨t', hwrite, hfind, -⟩ := Tree.find?_write hsound hcwd hfile (Yaml.encode c)
  refine ⟨t', hwrite, ?_⟩
  have hread : t'.read cwd (clusterFile root) = .ok (Yaml.encode c) := by rw [Tree.read, hfind]
  rw [loadCluster, hfind]
  dsimp only
  rw [hread]
  exact decodeFile_encode Cluster.readsBack c

/-- A cluster full of texts that look like something else. -/
def oddTexts : Cluster where
  requests := .ofList [("null", ⟨{ id := "null", instances := 0 }, .paused⟩),
    ("", ⟨{ id := "~", bounceAfterScale := some false }, .active⟩)]
  inUseDeploys := .ofList [("- a: b #c", " \n\n"), ("0x1F", "\u2028'\"\u0085")]
  requestHistory :=
    [{ requestId := "true", event := .scaled, user := "%\t", timestamp := -1, instances := 7,
       message := some "null" },
     { requestId := "1e3", event := .paused, user := "\x00", timestamp := 0, instances := 1,
       message := none }]

theorem loadCluster_saveCluster_oddTexts :
    ∃ t', saveCluster .empty [] "/srv" oddTexts = (t', .ok ()) ∧
      loadCluster t' [] "/srv" = .ok oddTexts := by
  have hfile : Tree.Writable .empty [] (clusterFile "/srv") :=
    ⟨_, ["srv", ".expiry"], "cluster.yaml", rfl, rfl, by decide⟩
  exact loadCluster_saveCluster Tree.sound_empty rfl hfile oddTexts

end Lapse.Root
