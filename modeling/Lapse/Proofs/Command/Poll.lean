import Lapse.Command.Invocation
import Lapse.Proofs.Command.Shown
import Lapse.Proofs.Poll.Step
import Lapse.Proofs.Root.Place

/-!
# Polling from the command line

A command that polls reads the settings, opens the store and reads the cluster before it changes
anything that was there.  If one of the three cannot be read, all of them stay as they were; if all can,
the command is one poll of what was read, whose store and cluster are read next time.
-/

namespace Lapse.Command

open Lapse.Files
open Lapse.Root (Rooted folder stored configFile clusterFile storeFile)

/-! ## Effects one after another -/

section Effect

variable {α β : Type} {act : Effect α} {m m' : Machine}

/-- A command goes on with the result of its first part. -/
theorem bind_ok {a : α} (h : act m = (.ok a, m')) (f : α → Effect β) : (act >>= f) m = f a m' := by
  simp only [bind, ExceptT.bind, ExceptT.mk, StateT.bind, h]
  rfl

/-- A command stops where its first part stops. -/
theorem bind_error {trouble : Trouble} (h : act m = (.error trouble, m')) (f : α → Effect β) :
    (act >>= f) m = (.error trouble, m') := by
  simp only [bind, ExceptT.bind, ExceptT.mk, StateT.bind, h]
  rfl

theorem change_apply (context : Option String) (f : Tree → Tree × Except Failure α) :
    change context f m = orStop context (f m.files).2 { m with files := (f m.files).1 } := rfl

/-- A change of the files that succeeds. -/
theorem change_ok {context : Option String} {f : Tree → Tree × Except Failure α} {t : Tree} {a : α}
    (h : f m.files = (t, .ok a)) : change context f m = (.ok a, { m with files := t }) := by
  rw [change_apply, h]
  rfl

/-- A change of the files that fails; what it did before stays done. -/
theorem change_error {context : Option String} {f : Tree → Tree × Except Failure α} {t : Tree}
    {cause : Failure} (h : f m.files = (t, .error cause)) :
    change context f m = (.error { context, cause }, { m with files := t }) := by
  rw [change_apply, h]
  rfl

end Effect

/-! ## What a poll reads -/

/-- The settings, the store and the cluster of a root can be read, and this is what they are. -/
structure Loads (t : Tree) (cwd : Location) (root : String) (config : Config) (store : Store)
    (cluster : Cluster) : Prop where
  config : Root.loadConfig t cwd root = .ok config
  store : (Root.openStore t cwd root).2.map Prod.snd = .ok store
  cluster : Root.loadCluster t cwd root = .ok cluster

/-- The files of a root hold what they held. -/
structure Untouched (t t' : Tree) (cwd : Location) (root : String) : Prop where
  config : t'.find? cwd (configFile root) = t.find? cwd (configFile root)
  cluster : t'.find? cwd (clusterFile root) = t.find? cwd (clusterFile root)
  store : stored t' cwd root = stored t cwd root

/-- The conditions of the poll of a command. -/
def conditions (s : Setting) (config : Config) : Poll.Conditions :=
  { config, now := s.wall, wall := s.wall, freshId := s.freshId, faults := s.faults }

/-- The world that the poll of a command begins in. -/
def worldOf (m : Machine) (store : Store) (cluster : Cluster) : Poll.World :=
  { store, cluster, minted := m.minted, log := m.log }

/-- A poll with its line about how it ended differs from the poll in the log only. -/
theorem pollAndSum_eq (c : Poll.Conditions) (w : Poll.World) :
    Poll.answer (Poll.pollAndSum c) w = Poll.answer (Poll.poll c) w ∧
      ∃ lines, Poll.after (Poll.pollAndSum c) w = (Poll.after (Poll.poll c) w).logged lines := by
  rw [Poll.pollAndSum, Poll.answer_bind, Poll.after_bind]
  split
  · exact ⟨rfl, _, rfl⟩
  · exact ⟨rfl, _, rfl⟩

variable {s : Setting} {root : String} {m m' : Machine} {config : Config} {cluster : Cluster}
  {store : Store}

/-- The machine after a turn of the poll. -/
def Machine.ticked (m : Machine) : Machine :=
  { m with log := m.log ++ [⟨.debug, pollerName ++ " ran"⟩] }

/-- The one process that there is leads, and its turn is its task. -/
theorem follow_alone {α : Type} (act : Effect α) (m : Machine) :
    follow (attempt act) (Leader.tick pollerName Leader.alone false {}).2.events none m =
      (.ok (some (act m).1), (act m).2.ticked) := rfl

/-- The machine after a poll, before the cluster is written. -/
def Machine.polled (m : Machine) (place : Location) (w : Poll.World) : Machine :=
  { m with
    files := m.files.insert place (.table w.store)
    minted := w.minted
    log := w.log }

/-- One poll of a cluster and a store that are there. -/
theorem pass_apply {place : Location} (hload : loadCluster s root m = (.ok cluster, m))
    (hopen : storeAt place m = (.ok store, m)) :
    pass s root config place m =
      (saveCluster s root
          (Poll.after (Poll.pollAndSum (conditions s config)) (worldOf m store cluster)).cluster >>=
        fun _ => pure
          (Poll.answer (Poll.pollAndSum (conditions s config)) (worldOf m store cluster)))
      (m.polled place
        (Poll.after (Poll.pollAndSum (conditions s config)) (worldOf m store cluster))) := by
  have hget : (get : Effect Machine) m = (.ok m, m) := rfl
  rw [pass, bind_ok hload, bind_ok hopen, bind_ok hget]
  rw [Poll.after, Poll.answer, conditions, worldOf]
  -- what the poll computes does not matter here
  generalize StateT.run (Poll.pollAndSum _) _ = outcome
  obtain ⟨report, world⟩ := outcome
  have hset : (set { m with minted := world.minted, log := world.log } : Effect PUnit) m =
    (.ok ⟨⟩, { m with minted := world.minted, log := world.log }) := rfl
  have hkeep : keepStore place world.store { m with minted := world.minted, log := world.log } =
    (.ok (), m.polled place world) := rfl
  dsimp only [Id.run]
  rw [bind_ok hset, bind_ok hkeep]

/-- What one poll leaves where the cluster and the store are there: its own store and cluster. -/
theorem pass_ok (hroot : Rooted m.files s.cwd root) (hhoused : Rooted.Housed m.files s.cwd root)
    (hcluster : Root.loadCluster m.files s.cwd root = .ok cluster)
    (hstore : m.files.find? s.cwd (storeFile root) = some (.table store))
    {w : Poll.World}
    (hw : Poll.after (Poll.poll (conditions s config)) (worldOf m store cluster) = w) :
    ∃ m', pass s root config (folder s.cwd root ++ ["expiring.db"]) m =
        (.ok (Poll.answer (Poll.poll (conditions s config)) (worldOf m store cluster)), m') ∧
      m'.output = m.output ∧
      m'.files.find? s.cwd (configFile root) = m.files.find? s.cwd (configFile root) ∧
      (Root.openStore m'.files s.cwd root).2.map Prod.snd = .ok w.store ∧
      Root.loadCluster m'.files s.cwd root = .ok w.cluster := by
  have hload : loadCluster s root m = (.ok cluster, m) := by
    show orStop _ (Root.loadCluster m.files s.cwd root) m = _
    rw [hcluster]
    rfl
  rw [Root.storeFile_eq, hroot.find?_file (by decide)] at hstore
  have hopen : storeAt (folder s.cwd root ++ ["expiring.db"]) m = (.ok store, m) := by
    show orStop _ (Root.storeAt m.files (folder s.cwd root ++ ["expiring.db"])) m = _
    rw [Root.storeAt, hstore]
    rfl
  have hfree : m.files.get? (folder s.cwd root ++ ["expiring.db"]) ≠ some .directory := by
    rw [← Tree.entry?_concat, hstore]
    simp
  obtain ⟨hroot', hhoused', hput⟩ := hroot.put hhoused hfree (.table w.store)
  have hconfig := hput "config.yaml" (by decide)
  have hcluster' := hput "cluster.yaml" (by decide)
  have htable := hput "expiring.db" (by decide)
  rw [if_neg (by decide), ← Root.configFile_eq] at hconfig
  rw [if_neg (by decide), ← Root.clusterFile_eq] at hcluster'
  rw [if_pos rfl, ← Root.storeFile_eq] at htable
  obtain ⟨t', hsave, hroot'', hhoused'', hnew, hconfig', hstore'⟩ := Root.saveCluster_spec hroot'
    hhoused' ((Root.loadCluster_congr hcluster').trans hcluster) w.cluster
  have hreopen := Root.openStore_of_table hroot'' hhoused'' (hstore'.trans htable)
  obtain ⟨hanswer, lines, hafter⟩ := pollAndSum_eq (conditions s config) (worldOf m store cluster)
  have hsaved : saveCluster s root w.cluster
      (m.polled (folder s.cwd root ++ ["expiring.db"]) (w.logged lines)) = _ :=
    change_ok hsave
  refine ⟨{ m.polled (folder s.cwd root ++ ["expiring.db"]) (w.logged lines) with files := t' }, ?_,
    rfl, hconfig'.trans hconfig, by rw [hreopen]; rfl, hnew⟩
  rw [pass_apply hload hopen, hanswer, hafter, hw]
  exact bind_ok hsaved _

/-- Without a cluster nothing is polled. -/
theorem pass_error {why : Failure} {place : Location}
    (hcluster : Root.loadCluster m.files s.cwd root = .error why) :
    pass s root config place m = (.error ⟨some "failed to load cluster state", why⟩, m) := by
  have hload : loadCluster s root m = (.error ⟨some "failed to load cluster state", why⟩, m) := by
    show orStop _ (Root.loadCluster m.files s.cwd root) m = _
    rw [hcluster]
    rfl
  exact bind_error hload _

/-! ## The command -/

/-- The machine after the settings were read and the store was opened. -/
def Machine.opened (m : Machine) (config : Config) (files : Tree) : Machine :=
  { m with log := m.log ++ config.findings.map findingLine, files }

theorem loadConfig_ok (hconfig : Root.loadConfig m.files s.cwd root = .ok config) :
    loadConfig s root m =
      (.ok config, { m with log := m.log ++ config.findings.map findingLine }) := by
  show (orStop _ (Root.loadConfig m.files s.cwd root) >>= fun config => do
    say (config.findings.map findingLine)
    return config : Effect Config) m = _
  rw [hconfig]
  rfl

theorem loadConfig_error {why : Failure}
    (hconfig : Root.loadConfig m.files s.cwd root = .error why) :
    loadConfig s root m = (.error ⟨some "failed to load config", why⟩, m) := by
  show (orStop _ (Root.loadConfig m.files s.cwd root) >>= fun config => do
    say (config.findings.map findingLine)
    return config : Effect Config) m = _
  rw [hconfig]
  rfl

/-- After the settings are read and the store is opened, the command is its poll. -/
theorem poll_apply {place : Location} {t : Tree} (json : Bool)
    (hconfig : Root.loadConfig m.files s.cwd root = .ok config)
    (hopen : Root.openStore m.files s.cwd root = (t, .ok (place, store))) :
    poll s root json m = match pass s root config place (m.opened config t) with
      | (.ok report, m') =>
        (.ok (), { m'.ticked with output := m'.output ++ shown json report })
      | (.error trouble, m') => (.error trouble, m'.ticked) := by
  have hstore : openStore s root { m with log := m.log ++ config.findings.map findingLine } =
      (.ok (place, store), m.opened config t) := change_ok hopen
  rw [poll, bind_ok (loadConfig_ok hconfig), bind_ok hstore]
  dsimp only
  rw [bind_ok (follow_alone _ _)]
  obtain ⟨result, m'⟩ := pass s root config place (m.opened config t)
  cases result with
  | error trouble => rfl
  | ok report =>
    cases json with
    | false => rfl
    | true => rfl

/-- **ALL**: where settings, store and cluster can be read, the command prints the report of one poll of
what was read, and the store and the cluster of that poll are read from then on. -/
theorem poll_of_loads (json : Bool) (hroot : Rooted m.files s.cwd root)
    (h : Loads m.files s.cwd root config store cluster) {world : Poll.World}
    (hworld : worldOf (m.opened config m.files) store cluster = world) :
    ∃ m' printed, poll s root json m = (.ok (), m') ∧ m'.output = m.output ++ printed ∧
      PrintsReport json (Poll.answer (Poll.poll (conditions s config)) world) printed ∧
      m'.files.find? s.cwd (configFile root) = m.files.find? s.cwd (configFile root) ∧
      Loads m'.files s.cwd root config (Poll.after (Poll.poll (conditions s config)) world).store
        (Poll.after (Poll.poll (conditions s config)) world).cluster := by
  rcases hopen : Root.openStore m.files s.cwd root with ⟨t, result⟩
  obtain ⟨hroot', hconfig, hcluster, -, hopened⟩ := Root.openStore_spec hroot hopen
  have hresult := h.store
  rw [hopen] at hresult
  cases result with
  | error why => exact nomatch hresult
  | ok found =>
    obtain ⟨place, found⟩ := found
    obtain rfl : found = store := Except.ok.inj hresult
    obtain ⟨hhoused, rfl, htable⟩ := hopened place found rfl
    obtain ⟨m', hpass, houtput, hkept, hstore', hcluster'⟩ := pass_ok (m := m.opened config t) hroot'
      hhoused ((Root.loadCluster_congr hcluster).trans h.cluster) htable rfl
    have hkept' := hkept.trans hconfig
    rw [poll_apply json h.config hopen, hpass]
    subst hworld
    refine ⟨_, _, rfl, congrArg (· ++ _) houtput, printsReport_shown json _, hkept', ?_, hstore',
      hcluster'⟩
    exact (Root.loadConfig_congr hkept').trans h.config

/-- **OR NOTHING**: where one of the three cannot be read, the command stops and they all stay. -/
theorem poll_of_not_loads (json : Bool) (hroot : Rooted m.files s.cwd root)
    (h : ¬∃ config store cluster, Loads m.files s.cwd root config store cluster) :
    ∃ trouble m', poll s root json m = (.error trouble, m') ∧ m'.output = m.output ∧
      Untouched m.files m'.files s.cwd root := by
  cases hload : Root.loadConfig m.files s.cwd root with
  | error why => exact ⟨_, m, bind_error (loadConfig_error hload) _, rfl, rfl, rfl, rfl⟩
  | ok config =>
    rcases hopen : Root.openStore m.files s.cwd root with ⟨t, result⟩
    obtain ⟨-, hconfig, hcluster, hstore, -⟩ := Root.openStore_spec hroot hopen
    cases result with
    | error why =>
      have hstop : openStore s root { m with log := m.log ++ config.findings.map findingLine } =
          (.error ⟨some "failed to open expiring action store", why⟩, m.opened config t) :=
        change_error hopen
      have hpoll : poll s root json m =
          (.error ⟨some "failed to open expiring action store", why⟩, m.opened config t) := by
        rw [poll, bind_ok (loadConfig_ok hload), bind_error hstop]
      exact ⟨_, _, hpoll, rfl, hconfig, hcluster, hstore⟩
    | ok found =>
      obtain ⟨place, store⟩ := found
      cases hread : Root.loadCluster m.files s.cwd root with
      | ok cluster => exact absurd ⟨config, store, cluster, hload, by rw [hopen]; rfl, hread⟩ h
      | error why =>
        have hpass : pass s root config place (m.opened config t) =
            (.error ⟨some "failed to load cluster state", why⟩, m.opened config t) :=
          pass_error ((Root.loadCluster_congr hcluster).trans hread)
        rw [poll_apply json hload hopen, hpass]
        exact ⟨_, _, rfl, rfl, hconfig, hcluster, hstore⟩

/-- A command line that polls runs the command that polls. -/
theorem run_apply {environment : Option String} {args : List String} {i : Invocation}
    (shutdown : Nat) (hargs : readArguments environment args = .ok i) (hverb : i.verb = .poll)
    (m : Machine) :
    run s environment shutdown args m =
      match poll s (Root.resolve m.files s.cwd i.root) i.json m with
      | (.ok (), m) => ({ code := 0 }, m)
      | (.error trouble, m) => ({ code := 1, trouble := some trouble }, m) := by
  rw [run, hargs]
  dsimp only
  rw [perform, hverb]
  rfl

/-- **ALL OR NOTHING**: a command line that polls a root is one poll between reading and writing.  If
the settings, the store and the cluster can all be read, it ends with the code 0, prints the report of
the poll, and leaves the settings as they were and what that poll made of the store and the cluster, to
be read next time; else it ends with the code 1 and prints nothing, and all three hold what they held. -/
theorem run_poll {environment : Option String} {args : List String} {i : Invocation}
    (shutdown : Nat) (hargs : readArguments environment args = .ok i) (hverb : i.verb = .poll)
    (hroot : Rooted m.files s.cwd (Root.resolve m.files s.cwd i.root)) :
    let root := Root.resolve m.files s.cwd i.root
    let ending := (run s environment shutdown args m).1
    let m' := (run s environment shutdown args m).2
    (∀ config store cluster, Loads m.files s.cwd root config store cluster →
      let world : Poll.World :=
        { store, cluster, minted := m.minted, log := m.log ++ config.findings.map findingLine }
      let after := Poll.after (Poll.poll (conditions s config)) world
      ending.code = 0 ∧
        (∃ printed, m'.output = m.output ++ printed ∧
          PrintsReport i.json (Poll.answer (Poll.poll (conditions s config)) world) printed) ∧
        m'.files.find? s.cwd (configFile root) = m.files.find? s.cwd (configFile root) ∧
        Loads m'.files s.cwd root config after.store after.cluster) ∧
    ((¬∃ config store cluster, Loads m.files s.cwd root config store cluster) →
      ending.code = 1 ∧ m'.output = m.output ∧ Untouched m.files m'.files s.cwd root) := by
  constructor
  · intro config store cluster h
    obtain ⟨m', printed, hpoll, houtput, hprinted, hafter⟩ := poll_of_loads i.json hroot h rfl
    dsimp only
    rw [run_apply shutdown hargs hverb, hpoll]
    exact ⟨rfl, ⟨printed, houtput, hprinted⟩, hafter⟩
  · intro h
    obtain ⟨trouble, m', hpoll, hafter⟩ := poll_of_not_loads i.json hroot h
    rw [run_apply shutdown hargs hverb, hpoll]
    exact ⟨rfl, hafter⟩

/-- A tree with a root that has a cluster. -/
def srv (cluster : Cluster) : Tree :=
  ((OrderedMap.empty.insert ["srv"] .directory).insert ["srv", ".expiry"] .directory).insert
    ["srv", ".expiry", "cluster.yaml"] (.file (Yaml.encode cluster))

/-- The root with a store. -/
def stocked (cluster : Cluster) (store : Store) : Tree :=
  (srv cluster).insert ["srv", ".expiry", "expiring.db"] (.table store)

theorem stocked_rooted (cluster : Cluster) (store : Store) :
    Rooted (stocked cluster store) [] "/srv" where
  sound := by
    have htop := @Tree.Sound.insert _ [] Tree.sound_empty rfl "srv" .directory nofun
    have hstate := @Tree.Sound.insert _ ["srv"] htop rfl ".expiry" .directory nofun
    have hsrv : Tree.Sound (srv cluster) :=
      hstate.insert (rfl : Tree.isDirectory _ ["srv", ".expiry"] = true) "cluster.yaml" nofun
    exact hsrv.insert (rfl : Tree.isDirectory _ ["srv", ".expiry"] = true) "expiring.db" nofun
  current := rfl
  reached := .inl (by decide)

theorem stocked_loads (cluster : Cluster) (store : Store) :
    Loads (stocked cluster store) [] "/srv" {} store cluster where
  config := rfl
  store := rfl
  cluster := Root.loadCluster_of_find? rfl

/-- A request that has been paused for five seconds. -/
def pausedWeb : Poll.World where
  store := Store.save .empty
    { requestId := "web", actionId := "p-1", user := "alice", startMillis := 0
      terms := { durationMillis := some 5000 }, undo := .pause }
  cluster := { requests := .ofList [("web", ⟨{ id := "web", instances := 2 }, .paused⟩)] }

/-- The cluster after the pause: the request is active, and the history says why. -/
def unpausedWeb : Cluster where
  requests := .ofList [("web", ⟨{ id := "web", instances := 2 }, .active⟩)]
  requestHistory :=
    [{ requestId := "web", event := .unpaused, user := "alice", timestamp := 10000, instances := 2
       message := some "Pause expired after 00:05.0" }]

/-- Ten seconds after the pause began. -/
def later : Setting where
  cwd := []
  wall := 10000
  freshId _ := ""

/-- The pause is counted and no longer stored, and the request is active. -/
theorem run_poll_pausedWeb :
    let outcome := run later none 0 ["--root", "/srv", "poll"]
      { files := stocked pausedWeb.cluster pausedWeb.store }
    outcome.1.code = 0 ∧
      outcome.2.output =
        ["Polled at 1970-01-01T00:00:10Z",
          "KIND               SEEN  NOT DUE  APPLIED  SKIPPED  FAILED  NO REQUEST  MALFORMED  DELETED  ERROR",
          "-----------------  ----  -------  -------  -------  ------  ----------  ---------  -------  -----",
          "bounce             0     0        0        0        0       0           0          0",
          "pause              1     0        1        0        0       0           0          1",
          "scale              0     0        0        0        0       0           0          0",
          "skip_healthchecks  0     0        0        0        0       0           0          0"] ∧
      Loads outcome.2.files [] "/srv" {} .empty unpausedWeb := by
  have hargs : readArguments none ["--root", "/srv", "poll"] = .ok ⟨some "/srv", false, .poll⟩ := rfl
  obtain ⟨hcode, ⟨printed, houtput, hprinted⟩, -, hloads⟩ :=
    (run_poll (m := { files := stocked pausedWeb.cluster pausedWeb.store }) (s := later) 0 hargs rfl
      (stocked_rooted _ _)).1 _ _ _ (stocked_loads _ _)
  have hbegun : pausedWeb =
      { store := pausedWeb.store, cluster := pausedWeb.cluster
        log := ({ files := stocked pausedWeb.cluster pausedWeb.store } : Machine).log ++
          ({} : Config).findings.map findingLine } := rfl
  rw [← hbegun] at hprinted hloads
  rw [hprinted.unique (printsReport_shown false _)] at houtput
  have hstore : (Poll.after (Poll.poll (conditions later {})) pausedWeb).store = .empty := by
    decide +kernel
  have hcluster : (Poll.after (Poll.poll (conditions later {})) pausedWeb).cluster =
      unpausedWeb := by
    decide +kernel
  rw [hstore, hcluster] at hloads
  refine ⟨hcode, houtput.trans ?_, hloads⟩
  show shown false (Poll.answer (Poll.poll (conditions later {})) pausedWeb) = _
  decide +kernel

end Lapse.Command
