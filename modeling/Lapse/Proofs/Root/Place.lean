import Lapse.Proofs.Files.Path
import Lapse.Proofs.Root.Contents

/-!
# Where the files of a root are

The settings, the cluster and the store of a root stand side by side in one directory.  Opening the
store makes that directory and the store, and nothing else next to it; writing the cluster replaces
that file alone.
-/

namespace Lapse.Root

open Lapse.Files

/-! ## Paths below a root -/

/-- The parts of a root that come before the parts of a path below it. -/
def headParts (root : String) : List String :=
  if root.isEmpty || root.toList.getLast? = some '/' then (Tree.parts root).dropLast
  else Tree.parts root

theorem headParts_within (root : String) : headParts root <+: Tree.parts root := by
  rw [headParts]
  split
  · exact List.dropLast_prefix _
  · exact List.prefix_refl _

theorem parts_join (root name : String) :
    Tree.parts (join root name) = headParts root ++ Tree.parts name := by
  rw [join, headParts]
  split
  · next hroot =>
    simp only [Bool.or_eq_true, String.isEmpty_iff, decide_eq_true_eq] at hroot
    rcases hroot with rfl | hlast
    · simp [Tree.parts, Tree.pieces]
    · obtain ⟨init, hinit⟩ := List.getLast?_eq_some_iff.mp hlast
      have hroot : root = String.ofList init ++ "/" ++ "" := by
        apply String.toList_inj.mp
        simp [hinit]
      have hname : root ++ name = String.ofList init ++ "/" ++ name := by
        rw [hroot, String.append_empty]
      have hempty : Tree.parts "" = [""] := rfl
      rw [hname, Tree.parts_append_slash, hroot, Tree.parts_append_slash, hempty,
        List.dropLast_concat]
  · rw [Tree.parts_append_slash]

theorem start_join {name : String} (hname : name.toList.head? ≠ some '/') (cwd : Location)
    (root : String) : Tree.start cwd (join root name) = Tree.start cwd root := by
  rw [Tree.start, Tree.start]
  cases htext : root.toList with
  | nil =>
    have hroot : root = "" := String.toList_inj.mp htext
    have hjoin : join root name = name := by simp [join, hroot]
    rw [hjoin, if_neg hname]
    rfl
  | cons c rest =>
    have hhead : (join root name).toList.head? = some c := by
      rw [join]
      split <;> simp [htext]
    rw [hhead, List.head?_cons]

theorem join_nonempty {name : String} (hname : name ≠ "") (root : String) :
    (join root name).isEmpty = false := by
  refine Bool.eq_false_iff.mpr fun hempty => hname ?_
  rw [String.isEmpty_iff, join] at hempty
  split at hempty
  · exact (String.append_eq_empty_iff.mp hempty).2
  · exact (String.append_eq_empty_iff.mp hempty).2

/-- The names of the files of a root. -/
def fileNames : List String := ["config.yaml", "cluster.yaml", "expiring.db"]

theorem parts_file : ∀ name ∈ fileNames,
    Tree.parts (".expiry/" ++ name) = [stateName, name] ∧ Tree.stays name = false ∧ name ≠ ".." ∧
      Tree.canName name = true := by
  decide +kernel

theorem lastName?_file {name : String} (hname : name ∈ fileNames) (root : String) :
    Tree.lastName? (join root (".expiry/" ++ name)) = some name := by
  obtain ⟨hparts, hstays, hup, hcan⟩ := parts_file name hname
  rw [Tree.lastName?, parts_join, hparts, List.append_cons, List.getLast?_concat]
  simp [hstays, hup, hcan]

theorem parentParts_file {name : String} (hname : name ∈ fileNames) (root : String) :
    Tree.parentParts (join root (".expiry/" ++ name)) = headParts root ++ [stateName] := by
  have hparts := (Tree.parts_of_lastName? (lastName?_file hname root)).1
  rw [parts_join, (parts_file name hname).1, List.append_cons] at hparts
  exact (List.append_inj_left' hparts rfl).symm

theorem configFile_eq (root : String) : configFile root = join root (".expiry/" ++ "config.yaml") := rfl

theorem clusterFile_eq (root : String) :
    clusterFile root = join root (".expiry/" ++ "cluster.yaml") := rfl

theorem storeFile_eq (root : String) : storeFile root = join root (".expiry/" ++ "expiring.db") := rfl

/-- Where the state directory of a root is. -/
def folder (cwd : Location) (root : String) : Location :=
  Tree.arrive (Tree.start cwd root) (headParts root) ++ [stateName]

/-- A root in a tree in which everything stands in a directory: the current directory is there, and so
is the root, unless its path never goes up. -/
structure Rooted (t : Tree) (cwd : Location) (root : String) : Prop where
  sound : t.Sound
  current : t.isDirectory cwd = true
  reached : ".." ∉ Tree.parts root ∨ t.find? cwd root = some .directory

namespace Rooted

variable {t t' : Tree} {cwd : Location} {root name : String}

theorem start (h : Rooted t cwd root) : t.isDirectory (Tree.start cwd root) = true :=
  Tree.isDirectory_start h.current root

/-- What was made in the tree leaves a root a root. -/
theorem mono (h : Rooted t cwd root) (hext : t'.Extends t) (hsound : t'.Sound) :
    Rooted t' cwd root where
  sound := hsound
  current := hext.isDirectory h.current
  reached := by
    refine h.reached.imp_right fun hfind => ?_
    rw [Tree.find?] at hfind ⊢
    split at hfind
    · cases hfind
    next hempty =>
    obtain ⟨home, hfollow, hentry⟩ := Option.bind_eq_some_iff.mp hfind
    have hhome : t.isDirectory home = true := decide_eq_true hentry
    rw [if_neg hempty, hext.follow hfollow hhome]
    exact of_decide_eq_true (hext.isDirectory hhome)

/-- The way to a root can be shortened to one that never goes up: the way itself, or none, from the
root where it is there. -/
theorem shortened (h : Rooted t cwd root) :
    ∃ here parts, t.isDirectory here = true ∧ ".." ∉ parts ∧
      Tree.arrive here parts = Tree.arrive (Tree.start cwd root) (headParts root) ∧
      ∀ more, t.follow (Tree.start cwd root) (headParts root ++ more) = t.follow here (parts ++ more) ∧
        t.makeAll (Tree.start cwd root) (headParts root ++ more) = t.makeAll here (parts ++ more) := by
  rcases h.reached with hplain | hfind
  · exact ⟨_, _, h.start, fun hmem => hplain ((headParts_within root).subset hmem), rfl,
      fun _ => ⟨rfl, rfl⟩⟩
  rw [Tree.find?] at hfind
  split at hfind
  · cases hfind
  next hempty =>
  obtain ⟨home, hfollow, hentry⟩ := Option.bind_eq_some_iff.mp hfind
  obtain ⟨last, hparts⟩ := headParts_within root
  rw [← hparts] at hfollow
  obtain ⟨place, hplace, hdir, -⟩ := Tree.follow_of_append hfollow (decide_eq_true hentry)
  refine ⟨place, [], hdir, List.not_mem_nil, Tree.follow_eq_arrive hplace, fun more => ?_⟩
  exact ⟨Tree.follow_append hplace, Tree.makeAll_of_follow hplace hdir more⟩

/-- A file of a root is what is at its location. -/
theorem find?_file (h : Rooted t cwd root) (hname : name ∈ fileNames) :
    t.find? cwd (join root (".expiry/" ++ name)) = t.entry? (folder cwd root ++ [name]) := by
  obtain ⟨hparts, hstays, hup, -⟩ := parts_file name hname
  obtain ⟨here, parts, hhere, hplain, harrive, hway⟩ := h.shortened
  have hfolder : ".." ∉ parts ++ [stateName] := by simpa [stateName] using hplain
  rw [Tree.find?, join_nonempty (by simp), if_neg Bool.false_ne_true, start_join (by simp),
    parts_join, hparts, (hway _).1, List.append_cons, h.sound.find_below hhere hfolder hstays hup,
    folder, ← harrive, Tree.arrive_append]
  rfl

/-- The directory of the files of a root is made where the root has it, and what is in it stays. -/
theorem makeParts_folder (h : Rooted t cwd root) {r : Option Location}
    (hmake : t.makeParts (Tree.start cwd root) (headParts root ++ [stateName]) = (t', r)) :
    Rooted t' cwd root ∧
      (∀ file, t'.get? (folder cwd root ++ [file]) = t.get? (folder cwd root ++ [file])) ∧
      ∀ place, r = some place → place = folder cwd root ∧ t'.isDirectory place = true := by
  rw [Tree.makeParts] at hmake
  split at hmake
  · obtain ⟨rfl, rfl⟩ := Prod.mk.inj hmake
    refine ⟨h, fun _ => rfl, ?_⟩
    rintro place ⟨⟩
  obtain ⟨here, parts, hhere, hplain, harrive, hway⟩ := h.shortened
  have hfolder : ".." ∉ parts ++ [stateName] := by simpa [stateName] using hplain
  have hplace : Tree.arrive here (parts ++ [stateName]) = folder cwd root := by
    rw [Tree.arrive_append, harrive]
    rfl
  rw [(hway _).2] at hmake
  have hsound := h.sound.makeAll_fst hhere (parts ++ [stateName])
  have hext := Tree.makeAll_extends t here (parts ++ [stateName])
  have hbelow (file : String) := @Tree.get?_makeAll_below t here (folder cwd root ++ [file]) _ hfolder
    (by rw [hplace]; simp)
  rw [hmake] at hsound hext hbelow
  refine ⟨h.mono hext hsound, hbelow, ?_⟩
  rintro place rfl
  have hmade := (h.sound.makeAll hhere hmake).2
  exact ⟨(Tree.makeAll_eq_arrive hmake).trans hplace, hmade⟩

/-- The directory of the files of a root is there. -/
def Housed (t : Tree) (cwd : Location) (root : String) : Prop :=
  t.makeParts (Tree.start cwd root) (headParts root ++ [stateName]) = (t, some (folder cwd root))

theorem Housed.makeParts (hhoused : Housed t cwd root) (hname : name ∈ fileNames) :
    t.makeParts (Tree.start cwd (join root (".expiry/" ++ name)))
      (Tree.parentParts (join root (".expiry/" ++ name))) = (t, some (folder cwd root)) := by
  rw [start_join (by simp), parentParts_file hname]
  exact hhoused

/-- What is put in the directory takes no other file's place. -/
theorem put (h : Rooted t cwd root) (hhoused : Housed t cwd root)
    (hfree : t.get? (folder cwd root ++ [name]) ≠ some .directory) (entry : Entry) :
    Rooted (t.insert (folder cwd root ++ [name]) entry) cwd root ∧
      Housed (t.insert (folder cwd root ++ [name]) entry) cwd root ∧
      ∀ file ∈ fileNames, Tree.find? (t.insert (folder cwd root ++ [name]) entry) cwd
        (join root (".expiry/" ++ file)) =
          if file = name then some entry else t.find? cwd (join root (".expiry/" ++ file)) := by
  have hext := @Tree.extends_insert t _ entry hfree
  have hdir := ((h.makeParts_folder hhoused).2.2 _ rfl).2
  have hrooted := h.mono hext (h.sound.insert hdir name hfree)
  refine ⟨hrooted, Tree.makeParts_again hhoused hext, fun file hfile => ?_⟩
  rw [hrooted.find?_file hfile, h.find?_file hfile, Tree.entry?_concat, Tree.entry?_concat,
    OrderedMap.get?_insert]
  simp only [List.append_cancel_left_eq, List.cons.injEq, and_true]

/-- A file is written where no directory is in its place. -/
theorem write_file (hhoused : Housed t cwd root) (hname : name ∈ fileNames)
    (hfree : t.get? (folder cwd root ++ [name]) ≠ some .directory) (bytes : Bytes) :
    t.write cwd (join root (".expiry/" ++ name)) bytes =
      (t.insert (folder cwd root ++ [name]) (.file bytes), .ok ()) := by
  rw [Tree.write, hhoused.makeParts hname]
  dsimp only
  rw [lastName?_file hname]
  exact if_neg hfree

end Rooted

/-! ## Opening a store -/

theorem storeAt_eq_ok {t : Tree} {place : Location} {store : Store}
    (h : storeAt t place = .ok store) : t.entry? place ≠ some .directory := by
  intro hdir
  rw [storeAt, hdir] at h
  exact nomatch h

theorem storeAt_of_get? {t : Tree} {parent : Location} {name : String} {store : Store}
    (h : t.get? (parent ++ [name]) = some (.table store)) :
    storeAt t (parent ++ [name]) = .ok store := by
  rw [storeAt, Tree.entry?_concat, h]

/-- A store that is there is opened as it is. -/
theorem openStore_of_get? {t : Tree} {cwd parent : Location} {root name : String} {store : Store}
    (hparts : t.makeParts (Tree.start cwd (storeFile root)) (Tree.parentParts (storeFile root)) =
      (t, some parent))
    (hname : Tree.lastName? (storeFile root) = some name)
    (hget : t.get? (parent ++ [name]) = some (.table store)) :
    openStore t cwd root = (t, .ok (parent ++ [name], store)) := by
  rw [openStore]
  dsimp only
  rw [hparts, hname]
  dsimp only
  rw [storeAt_of_get? hget]
  dsimp only
  rw [OrderedMap.insert_of_get? hget]

/-! ## The files -/

/-- What the store of a root keeps, as an entry of the tree: without a file, and with an empty one, it
keeps nothing. -/
def stored (t : Tree) (cwd : Location) (root : String) : Option Entry :=
  match t.find? cwd (storeFile root) with
  | none | some (.file []) => some (.table .empty)
  | found => found

variable {t t' : Tree} {cwd : Location} {root : String}

/-- The settings are read from their file alone. -/
theorem loadConfig_congr (h : t'.find? cwd (configFile root) = t.find? cwd (configFile root)) :
    loadConfig t' cwd root = loadConfig t cwd root := by
  rw [loadConfig, loadConfig, Tree.read, Tree.read, h]

/-- The cluster is read from its file alone. -/
theorem loadCluster_congr (h : t'.find? cwd (clusterFile root) = t.find? cwd (clusterFile root)) :
    loadCluster t' cwd root = loadCluster t cwd root := by
  rw [loadCluster, loadCluster, Tree.read, Tree.read, h]

/-- A store that can be opened keeps what is stored. -/
theorem stored_of_storeAt {place : Location} {store : Store}
    (hplace : t.find? cwd (storeFile root) = t.entry? place)
    (hstore : storeAt t place = .ok store) :
    stored t cwd root = some (.table store) := by
  rw [stored, hplace]
  rw [storeAt] at hstore
  split at hstore
  · next habsent => rw [habsent, ← Except.ok.inj hstore]
  · next hempty => rw [hempty, ← Except.ok.inj hstore]
  · next htable => rw [htable, ← Except.ok.inj hstore]
  · exact nomatch hstore

/-- **OPENING**: the directory and the store are made where they are not there, and all else stays. -/
theorem openStore_spec (h : Rooted t cwd root) {result : Except Failure (Location × Store)}
    (hopen : openStore t cwd root = (t', result)) :
    Rooted t' cwd root ∧ t'.find? cwd (configFile root) = t.find? cwd (configFile root) ∧
      t'.find? cwd (clusterFile root) = t.find? cwd (clusterFile root) ∧
      stored t' cwd root = stored t cwd root ∧
      ∀ place store, result = .ok (place, store) → Rooted.Housed t' cwd root ∧
        place = folder cwd root ++ ["expiring.db"] ∧
        t'.find? cwd (storeFile root) = some (.table store) := by
  rw [configFile_eq, clusterFile_eq, storeFile_eq]
  rw [openStore] at hopen
  dsimp only at hopen
  rw [storeFile_eq, start_join (by simp), parentParts_file (by decide), lastName?_file (by decide)] at hopen
  rcases hmake : t.makeParts (Tree.start cwd root) (headParts root ++ [stateName]) with ⟨t₁, r⟩
  rw [hmake] at hopen
  obtain ⟨h₁, hkept, hmade⟩ := h.makeParts_folder hmake
  have hfind : ∀ file ∈ fileNames, t₁.find? cwd (join root (".expiry/" ++ file)) =
      t.find? cwd (join root (".expiry/" ++ file)) := by
    intro file hfile
    rw [h₁.find?_file hfile, h.find?_file hfile, Tree.entry?_concat, Tree.entry?_concat, hkept]
  have hsame : stored t₁ cwd root = stored t cwd root := by
    rw [stored, stored, storeFile_eq, hfind "expiring.db" (by decide)]
  have hconfig := hfind "config.yaml" (by decide)
  have hcluster := hfind "cluster.yaml" (by decide)
  cases r with
  | none =>
    obtain ⟨rfl, rfl⟩ := Prod.mk.inj hopen
    exact ⟨h₁, hconfig, hcluster, hsame, nofun⟩
  | some parent =>
    obtain ⟨rfl, hdir⟩ := hmade _ rfl
    have hhoused : Rooted.Housed t₁ cwd root := Tree.makeParts_again hmake (.refl t₁)
    dsimp only at hopen
    cases hstore : storeAt t₁ (folder cwd root ++ ["expiring.db"]) with
    | error why =>
      rw [hstore] at hopen
      obtain ⟨rfl, rfl⟩ := Prod.mk.inj hopen
      exact ⟨h₁, hconfig, hcluster, hsame, nofun⟩
    | ok store =>
      rw [hstore] at hopen
      obtain ⟨rfl, rfl⟩ := Prod.mk.inj hopen
      have hplace : t₁.find? cwd (storeFile root) =
          t₁.entry? (folder cwd root ++ ["expiring.db"]) := by
        rw [storeFile_eq, h₁.find?_file (by decide)]
      have hkeeps := stored_of_storeAt hplace hstore
      have hfree := storeAt_eq_ok hstore
      rw [Tree.entry?_concat] at hfree
      obtain ⟨hrooted, hhoused', hput⟩ := h₁.put hhoused hfree (.table store)
      have htable : Tree.find? (t₁.insert (folder cwd root ++ ["expiring.db"]) (.table store)) cwd
          (join root (".expiry/" ++ "expiring.db")) = some (.table store) := by
        rw [hput "expiring.db" (by decide), if_pos rfl]
      have hconfig' := hput "config.yaml" (by decide)
      have hcluster' := hput "cluster.yaml" (by decide)
      rw [if_neg (by decide)] at hconfig' hcluster'
      refine ⟨hrooted, hconfig'.trans hconfig, hcluster'.trans hcluster, ?_, ?_⟩
      · rw [← hsame, hkeeps, stored, storeFile_eq, htable]
      · intro place store' hresult
        obtain ⟨rfl, rfl⟩ := Prod.mk.inj (Except.ok.inj hresult)
        exact ⟨hhoused', rfl, htable⟩

/-- The cluster is loaded where it was saved. -/
theorem loadCluster_of_find? {c : Cluster}
    (h : t.find? cwd (clusterFile root) = some (.file (Yaml.encode c))) :
    loadCluster t cwd root = .ok c := by
  rw [loadCluster, h]
  dsimp only
  rw [Tree.read, h]
  exact decodeFile_encode Cluster.readsBack c

/-- A cluster that can be loaded is in a file. -/
theorem find?_of_loadCluster {c : Cluster} (h : loadCluster t cwd root = .ok c) :
    ∃ bytes, t.find? cwd (clusterFile root) = some (.file bytes) := by
  rw [loadCluster] at h
  split at h
  · cases h
  · next entry hfind =>
    cases entry with
    | directory => rw [Tree.read, hfind] at h; cases h
    | file bytes => exact ⟨bytes, hfind⟩
    | table store => rw [Tree.read, hfind] at h; cases h

/-- The store of a root is opened as it is. -/
theorem openStore_of_table (h : Rooted t cwd root) (hhoused : Rooted.Housed t cwd root)
    {store : Store} (htable : t.find? cwd (storeFile root) = some (.table store)) :
    openStore t cwd root = (t, .ok (folder cwd root ++ ["expiring.db"], store)) := by
  have hfile : "expiring.db" ∈ fileNames := by decide
  have hparts := hhoused.makeParts hfile
  have hname := lastName?_file hfile root
  rw [storeFile_eq, h.find?_file hfile, Tree.entry?_concat] at htable
  rw [← storeFile_eq] at hparts hname
  exact openStore_of_get? hparts hname htable

/-- **SAVING**: in place of a cluster that can be loaded, every cluster is saved, and all else
stays. -/
theorem saveCluster_spec (h : Rooted t cwd root) (hhoused : Rooted.Housed t cwd root)
    {old : Cluster} (hold : loadCluster t cwd root = .ok old) (c : Cluster) :
    ∃ t', saveCluster t cwd root c = (t', .ok ()) ∧ Rooted t' cwd root ∧
      Rooted.Housed t' cwd root ∧ loadCluster t' cwd root = .ok c ∧
      t'.find? cwd (configFile root) = t.find? cwd (configFile root) ∧
      t'.find? cwd (storeFile root) = t.find? cwd (storeFile root) := by
  obtain ⟨bytes, hfile⟩ := find?_of_loadCluster hold
  have hfree : t.get? (folder cwd root ++ ["cluster.yaml"]) ≠ some .directory := by
    rw [clusterFile_eq, h.find?_file (by decide), Tree.entry?_concat] at hfile
    rw [hfile]
    exact nofun
  obtain ⟨hrooted, hhoused', hput⟩ := h.put hhoused hfree (.file (Yaml.encode c))
  have hcluster := hput "cluster.yaml" (by decide)
  have hconfig := hput "config.yaml" (by decide)
  have hstore := hput "expiring.db" (by decide)
  rw [if_pos rfl, ← clusterFile_eq] at hcluster
  rw [if_neg (by decide), ← configFile_eq] at hconfig
  rw [if_neg (by decide), ← storeFile_eq] at hstore
  refine ⟨_, ?_, hrooted, hhoused', loadCluster_of_find? hcluster, hconfig, hstore⟩
  rw [saveCluster, clusterFile_eq, Rooted.write_file hhoused (by decide) hfree]

end Lapse.Root
