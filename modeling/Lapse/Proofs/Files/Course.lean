import Lapse.Proofs.Files.Replace

/-!
# Writing again and again

Files are written and directories are made in turn, and the disk may refuse any of it.  A file holds
what the last writing that succeeded has put in its place, and what no writing has touched is as it
was.
-/

namespace Lapse.Files.Tree

/-! ## One step -/

/-- A change that is asked for, and where the disk refuses to go on with it. -/
inductive Step where
  | write (path : String) (bytes : Bytes) (temp : String) (refusal : Option Refusal)
  | directory (path : String) (made : Option Nat)

/-- What comes of a change. -/
def act (t : Tree) (cwd : Location) : Step → Tree × Except Failure Unit
  | .write path bytes temp refusal => t.replace cwd path bytes temp refusal
  | .directory path none => t.makeDirectory cwd path
  | .directory path (some made) =>
    ((t.makeParts (start cwd path) ((parts path).take made)).1, .error .files)

/-- The bytes that a step has put in a place. -/
def put? (cwd place : Location) : Step × Except Failure Unit → Option Bytes
  | (.write path bytes _ _, .ok ()) => if target? cwd path = some place then some bytes else none
  | _ => none

/-- The bytes that the last writing of a course that succeeded has put in a place. -/
def last? (cwd place : Location) (log : List (Step × Except Failure Unit)) : Option Bytes :=
  log.reverse.findSome? (put? cwd place)

/-- The steps of a course with what came of them. -/
def run (cwd : Location) : Tree → List Step → Tree × List (Step × Except Failure Unit)
  | t, [] => (t, [])
  | t, step :: rest =>
    let (t, result) := t.act cwd step
    let (t, log) := run cwd t rest
    (t, (step, result) :: log)

variable {t t' : Tree} {here place cwd : Location} {parts : List String} {path temp : String}
  {bytes : Bytes}

/-- What a course does: directories stay, a file holds what was last put in its place, and all else
is held as before. -/
structure Course (t t' : Tree) (cwd : Location) (log : List (Step × Except Failure Unit)) : Prop where
  sound : t'.Sound
  kept : t'.Extends t
  held : ∀ place entry, entry ≠ .directory → (t'.get? place = some entry ↔
    ((last? cwd place log).map Entry.file).or (t.get? place) = some entry)
  reached : ∀ path bytes temp refusal, (Step.write path bytes temp refusal, .ok ()) ∈ log →
    ∃ place, target? cwd path = some place ∧ t'.Reaches cwd path place ∧
      (last? cwd place log).isSome = true

theorem last?_cons (cwd place : Location) (did : Step × Except Failure Unit)
    (log : List (Step × Except Failure Unit)) :
    last? cwd place (did :: log) = (last? cwd place log).or (put? cwd place did) := by
  rw [last?, last?, List.reverse_cons, List.findSome?_append, List.findSome?_singleton]

theorem last?_singleton (cwd place : Location) (did : Step × Except Failure Unit) :
    last? cwd place [did] = put? cwd place did :=
  List.findSome?_singleton

theorem Course.nil (hsound : t.Sound) : Course t t cwd [] where
  sound := hsound
  kept := .refl t
  held := fun _ _ _ => Iff.rfl
  reached := nofun

/-- What comes after a step goes on from there. -/
theorem Course.cons {t₁ : Tree} {did : Step × Except Failure Unit}
    {log : List (Step × Except Failure Unit)} (hstep : Course t t₁ cwd [did])
    (hrest : Course t₁ t' cwd log) : Course t t' cwd (did :: log) where
  sound := hrest.sound
  kept := hrest.kept.trans hstep.kept
  held := by
    intro place entry hentry
    rw [hrest.held place entry hentry, last?_cons]
    cases last? cwd place log with
    | some later => rfl
    | none =>
      rw [Option.none_or, ← last?_singleton]
      exact hstep.held place entry hentry
  reached := by
    intro path bytes temp refusal hmem
    rcases List.mem_cons.mp hmem with hhead | hlater
    · obtain ⟨place, htarget, hreaches, hput⟩ :=
        hstep.reached path bytes temp refusal (hhead ▸ List.mem_singleton_self _)
      refine ⟨place, htarget, hreaches.mono hrest.kept, ?_⟩
      rw [last?_cons, ← last?_singleton, Option.isSome_or, hput, Bool.or_true]
    · obtain ⟨place, htarget, hreaches, hput⟩ := hrest.reached path bytes temp refusal hlater
      refine ⟨place, htarget, hreaches, ?_⟩
      rw [last?_cons, Option.isSome_or, hput, Bool.true_or]

/-- A step that makes directories and no file. -/
theorem Course.of_makeParts (hsound : t.Sound) (hcwd : t.isDirectory cwd = true) (path : String)
    (parts : List String) {did : Step × Except Failure Unit}
    (hput : ∀ place, put? cwd place did = none)
    (hfails : ∀ path bytes temp refusal, did ≠ (.write path bytes temp refusal, .ok ())) :
    Course t (t.makeParts (start cwd path) parts).1 cwd [did] where
  sound := by
    rw [makeParts]
    split
    · exact hsound
    · exact hsound.makeAll_fst (isDirectory_start hcwd path) parts
  kept := fun d => (spared_makeParts t _ parts d).directory
  held := by
    intro place entry hentry
    rw [last?_singleton, hput]
    exact (spared_makeParts t _ parts place).held hentry
  reached := by
    intro path bytes temp refusal hmem
    exact absurd (List.mem_singleton.mp hmem).symm (hfails path bytes temp refusal)

/-- A writing puts its bytes in its place, or makes directories and no file. -/
theorem Outcome.course {r : Tree × Except Failure Unit} (hsound : t.Sound)
    (hcwd : t.isDirectory cwd = true) (h : Outcome t cwd path bytes r) (temp : String)
    (refusal : Option Refusal) : Course t r.1 cwd [(.write path bytes temp refusal, r.2)] := by
  have hatomic := h.atomic hsound hcwd
  cases h with
  | @nothing parts hparts => exact .of_makeParts hsound hcwd path parts (fun _ => rfl) (by simp)
  | @all t₁ parent name hmake hname hfree =>
    have htarget := target?_eq hmake hname
    have hext := @extends_insert t₁ _ (.file bytes) hfree
    have hkept := makeAll_extends t (start cwd path) (parentParts path)
    rw [makeAll_of_makeParts hmake] at hkept
    refine ⟨hatomic.sound, hext.trans hkept, fun place entry hentry => ?_,
      fun path' bytes' temp' refusal' hmem => ?_⟩
    · -- only the place of the file is not spared
      rw [last?_singleton, put?, htarget]
      by_cases hplace : parent ++ [name] = place
      · rw [if_pos (congrArg some hplace), OrderedMap.get?_insert, if_pos hplace.symm]
        rfl
      · have hother : target? cwd path ≠ some place :=
          fun heq => hplace (Option.some.inj (htarget.symm.trans heq))
        rw [if_neg (fun heq => hplace (Option.some.inj heq))]
        exact (hatomic.spared place fun _ => hother).held hentry
    · obtain ⟨hstep, -⟩ := Prod.mk.inj (List.mem_singleton.mp hmem)
      obtain ⟨rfl, rfl, rfl, rfl⟩ := Step.write.inj hstep
      refine ⟨_, htarget, reaches_of_makeParts hsound hcwd hmake hname hext, ?_⟩
      rw [last?_singleton, put?, htarget, if_pos rfl]
      rfl

/-- Directories are made for parts of the path, whether or not all of them can be made. -/
theorem makeDirectory_fst (t : Tree) (cwd : Location) (path : String) :
    ∃ parts, (t.makeDirectory cwd path).1 = (t.makeParts (start cwd path) parts).1 := by
  rw [makeDirectory]
  split
  · exact ⟨[], rfl⟩
  split
  · exact ⟨_, rfl⟩
  refine ⟨parts path, ?_⟩
  split
  · next hmake => rw [hmake]
  · next hmake => rw [hmake]

/-- **ONE STEP**: whatever comes of it, a step does no more than it says. -/
theorem act_course (hsound : t.Sound) (hcwd : t.isDirectory cwd = true) (step : Step) :
    Course t (t.act cwd step).1 cwd [(step, (t.act cwd step).2)] := by
  cases step with
  | write path bytes temp refusal =>
    exact (replace_outcome t cwd path bytes temp refusal).course hsound hcwd temp refusal
  | directory path made =>
    obtain ⟨parts, hparts⟩ : ∃ parts, (t.act cwd (.directory path made)).1 =
        (t.makeParts (start cwd path) parts).1 := by
      cases made with
      | none => exact makeDirectory_fst t cwd path
      | some made => exact ⟨_, rfl⟩
    rw [hparts]
    exact .of_makeParts hsound hcwd path parts (fun _ => rfl) (by simp)

/-- **ALL STEPS**: and so does a course of steps. -/
theorem run_course (hsound : t.Sound) (hcwd : t.isDirectory cwd = true) (steps : List Step) :
    Course t (run cwd t steps).1 cwd (run cwd t steps).2 := by
  induction steps generalizing t with
  | nil => exact .nil hsound
  | cons step rest ih =>
      have hstep := act_course hsound hcwd step
      exact hstep.cons (ih hstep.sound (hstep.kept.isDirectory hcwd))

/-! ## All steps and all their ends -/

/-- **ALL OR NOTHING**: a writing puts the whole file in its place or changes no file, wherever the
disk refuses to go on; it goes through where it is not refused and a file can be written; and after
any course of steps every file holds what the last writing that succeeded has put in its place. -/
theorem writes_atomic (hsound : t.Sound) (hcwd : t.isDirectory cwd = true) :
    (∀ path bytes, Atomic t cwd path bytes (t.write cwd path bytes) ∧
      ((t.write cwd path bytes).2 = .ok () ↔ t.Writable cwd path) ∧
      ∀ temp, (Fresh t cwd path temp →
          t.replace cwd path bytes temp none = t.write cwd path bytes) ∧
        ∀ refusal, Atomic t cwd path bytes (t.replace cwd path bytes temp refusal) ∧
          (Blocked t cwd path → (t.replace cwd path bytes temp refusal).2 = .error .files)) ∧
    ∀ steps t' log, run cwd t steps = (t', log) → t'.Extends t ∧
      (∀ place entry, entry ≠ .directory → (t'.get? place = some entry ↔
        ((last? cwd place log).map Entry.file).or (t.get? place) = some entry)) ∧
      ∀ path bytes temp refusal, (Step.write path bytes temp refusal, .ok ()) ∈ log →
        ∃ place data, target? cwd path = some place ∧ last? cwd place log = some data ∧
          t'.find? cwd path = some (.file data) := by
  refine ⟨fun path bytes => ⟨(write_outcome t cwd path bytes).atomic hsound hcwd,
    write_eq_ok_iff hsound hcwd, fun temp => ⟨fun hfresh => replace_eq_write hfresh bytes,
      fun refusal => ?_⟩⟩, fun steps t' log hrun => ?_⟩
  · have houtcome := replace_outcome t cwd path bytes temp refusal
    exact ⟨houtcome.atomic hsound hcwd, houtcome.error_of_blocked hsound hcwd⟩
  · have hcourse := run_course hsound hcwd steps
    rw [hrun] at hcourse
    refine ⟨hcourse.kept, hcourse.held, fun path bytes temp refusal hmem => ?_⟩
    obtain ⟨place, htarget, hreaches, hput⟩ := hcourse.reached path bytes temp refusal hmem
    obtain ⟨data, hdata⟩ := Option.isSome_iff_exists.mp hput
    refine ⟨place, data, htarget, hdata, hreaches.find? ?_⟩
    rw [hcourse.held place (.file data) nofun, hdata]
    rfl

/-- A directory with one file. -/
def folderOfOne : Tree :=
  OrderedMap.insert (OrderedMap.insert .empty ["a"] .directory) ["a", "b"] (.file [1])

theorem sound_folderOfOne : folderOfOne.Sound := by
  have hfolder : Sound (OrderedMap.insert .empty ["a"] .directory) :=
    @Sound.insert _ [] sound_empty rfl "a" .directory (by decide +kernel)
  exact @Sound.insert _ ["a"] hfolder (by decide +kernel) "b" (.file [1]) (by decide +kernel)

/-- Writings below a file and of a file that the disk takes in part fail; those before and after
them are by two paths to one place. -/
def someSteps : List Step :=
  [.write "b" [2] "new" none, .write "b/c" [3] "new" none, .directory "d" none,
    .write "d/../b" [4, 5] "new" (some (.fill 1)), .write "../a/b" [6] "new" none]

theorem writes_atomic_someSteps :
    folderOfOne.Sound ∧ folderOfOne.isDirectory ["a"] = true ∧
      (run ["a"] folderOfOne someSteps).1.get? ["a", "b"] = some (.file [6]) := by
  have hcwd : folderOfOne.isDirectory ["a"] = true := by decide +kernel
  have hcourse := (writes_atomic sound_folderOfOne hcwd).2 someSteps _ _ rfl
  refine ⟨sound_folderOfOne, hcwd, (hcourse.2.1 ["a", "b"] (.file [6]) nofun).mpr ?_⟩
  decide +kernel

end Lapse.Files.Tree
