import Lapse.Proofs.Files.Path
import Mathlib.Data.Fintype.EquivFin

/-!
# All or nothing

A file is written by way of a new one beside it: the directories on the way are made, the new file is
made and takes the bytes, and then it is put in the place of the old one.  The disk may refuse any of
this at any point.  Whatever happens, either the whole file is there and nothing else has changed, or
every file is as it was; no new file is left, and the only other change is that directories on the way
may have been made.
-/

namespace Lapse.Files.Tree

/-! ## The steps of a writing -/

/-- Where the disk refuses to go on. -/
inductive Refusal where
  /-- It makes directories for these many parts of the way only. -/
  | parents (made : Nat)
  /-- It makes no new file. -/
  | create
  /-- It takes these many bytes only. -/
  | fill (taken : Nat)
  /-- It does not put the new file in its place. -/
  | rename
  deriving DecidableEq

/-- Write a file in a directory by way of a new one, whose name must be free there.  A new file that
cannot be put in its place is removed. -/
def replaceIn (t : Tree) (parent : Location) (name? : Option String) (bytes : Bytes) (temp : String)
    (refusal : Option Refusal) : Tree × Except Failure Unit :=
  let new := parent ++ [temp]
  if refusal = some .create ∨ t.contains new = true then (t, .error .files)
  else
    let made := t.insert new (.file [])
    match refusal with
    | some (.fill taken) => ((made.insert new (.file (bytes.take taken))).erase new, .error .files)
    | _ =>
      let filled := made.insert new (.file bytes)
      match name? with
      | none => (filled.erase new, .error .files)
      | some name =>
        if refusal = some .rename ∨ filled.get? (parent ++ [name]) = some .directory then
          (filled.erase new, .error .files)
        else ((filled.erase new).insert (parent ++ [name]) (.file bytes), .ok ())

/-- Write the file of a path step by step, as far as the disk goes. -/
def replace (t : Tree) (cwd : Location) (path : String) (bytes : Bytes) (temp : String)
    (refusal : Option Refusal) : Tree × Except Failure Unit :=
  match refusal with
  | some (.parents made) =>
    ((t.makeParts (start cwd path) ((parentParts path).take made)).1, .error .files)
  | _ =>
    match t.makeParts (start cwd path) (parentParts path) with
    | (t, none) => (t, .error .files)
    | (t, some parent) => t.replaceIn parent (lastName? path) bytes temp refusal

/-! ## What a writing can come to -/

/-- The two ends of a writing: directories are made for the first parts of the way and no more, or for
all of them and then the file is there. -/
inductive Outcome (t : Tree) (cwd : Location) (path : String) (bytes : Bytes) :
    Tree × Except Failure Unit → Prop where
  | nothing {parts : List String} (hparts : parts <+: parentParts path) :
    Outcome t cwd path bytes ((t.makeParts (start cwd path) parts).1, .error .files)
  | all {t₁ : Tree} {parent : Location} {name : String}
    (hmake : t.makeParts (start cwd path) (parentParts path) = (t₁, some parent))
    (hname : lastName? path = some name) (hfree : t₁.get? (parent ++ [name]) ≠ some .directory) :
    Outcome t cwd path bytes (t₁.insert (parent ++ [name]) (.file bytes), .ok ())

variable {t t₁ t' : Tree} {here place cwd parent : Location} {parts : List String} {path : String}
  {bytes : Bytes}

/-- A new file that is removed again leaves nothing. -/
theorem erase_insert_insert (h : t.get? place = none) (first second : Entry) :
    ((t.insert place first).insert place second).erase place = t := by
  refine OrderedMap.ext_get? fun d => ?_
  rw [OrderedMap.get?_erase, OrderedMap.get?_insert, OrderedMap.get?_insert]
  split
  · next hd => rw [hd, h]
  · rfl

/-- A new file stands where no directory is. -/
theorem isDirectory_insert_insert (h : t.get? place = none) (first second : Bytes) (d : Location) :
    OrderedMap.get? ((t.insert place (.file first)).insert place (.file second)) d =
      some Entry.directory ↔ t.get? d = some .directory := by
  rw [OrderedMap.get?_insert, OrderedMap.get?_insert]
  split
  · next hd =>
    rw [hd, h]
    exact iff_of_false nofun nofun
  · rfl

/-- In a directory, a file is written without a trace of the new one, or not at all. -/
theorem replaceIn_cases (t : Tree) (parent : Location) (name? : Option String) (bytes : Bytes)
    (temp : String) (refusal : Option Refusal) :
    t.replaceIn parent name? bytes temp refusal = (t, .error .files) ∨
      ∃ name, name? = some name ∧ t.get? (parent ++ [name]) ≠ some .directory ∧
        t.replaceIn parent name? bytes temp refusal =
          (t.insert (parent ++ [name]) (.file bytes), .ok ()) := by
  rw [replaceIn]
  dsimp only
  split
  · exact .inl rfl
  next hmade =>
  have habsent : t.get? (parent ++ [temp]) = none := by
    have := (not_or.mp hmade).2
    rwa [OrderedMap.contains, Bool.not_eq_true, Option.isSome_eq_false_iff,
      Option.isNone_iff_eq_none] at this
  -- from here on the new file is removed again in every branch, so what is left is `t` or its last
  -- insertion
  simp only [erase_insert_insert habsent, isDirectory_insert_insert habsent]
  split
  · exact .inl rfl
  split
  · exact .inl rfl
  split
  · exact .inl rfl
  · next name hput => exact .inr ⟨name, rfl, (not_or.mp hput).2, rfl⟩

/-- In a directory, where nothing is refused, a file is written in all places but those of
directories. -/
theorem replaceIn_none {temp : String} (habsent : t.get? (parent ++ [temp]) = none)
    (name? : Option String) (bytes : Bytes) :
    t.replaceIn parent name? bytes temp none =
      match name? with
      | none => (t, .error .files)
      | some name =>
        if t.get? (parent ++ [name]) = some .directory then (t, .error .files)
        else (t.insert (parent ++ [name]) (.file bytes), .ok ()) := by
  have hnew : t.contains (parent ++ [temp]) = false := by rw [OrderedMap.contains, habsent]; rfl
  simp only [replaceIn, hnew, erase_insert_insert habsent, isDirectory_insert_insert habsent,
    reduceCtorEq, Bool.false_eq_true, or_self, false_or, if_false]

/-- **OUTCOMES**: a writing ends in one of two ways, wherever it is refused. -/
theorem replace_outcome (t : Tree) (cwd : Location) (path : String) (bytes : Bytes) (temp : String)
    (refusal : Option Refusal) :
    Outcome t cwd path bytes (t.replace cwd path bytes temp refusal) := by
  rw [replace.eq_def]
  split
  · exact .nothing (List.take_prefix _ _)
  have hnothing : Outcome t cwd path bytes
      ((t.makeParts (start cwd path) (parentParts path)).1, .error .files) :=
    .nothing (List.prefix_refl _)
  rcases hmake : t.makeParts (start cwd path) (parentParts path) with ⟨t₁, reached⟩
  rw [hmake] at hnothing
  cases reached with
  | none => exact hnothing
  | some parent =>
    rcases replaceIn_cases t₁ parent (lastName? path) bytes temp refusal with
      hfails | ⟨name, hname, hfree, hsucceeds⟩
    · dsimp only
      rwa [hfails]
    · dsimp only
      rw [hsucceeds]
      exact .all hmake hname hfree

/-- A name is free for a new file in the directory of a path. -/
def Fresh (t : Tree) (cwd : Location) (path temp : String) : Prop :=
  ∀ t₁ parent, t.makeParts (start cwd path) (parentParts path) = (t₁, some parent) →
    t₁.get? (parent ++ [temp]) = none

/-- There is always a free name. -/
theorem exists_fresh (t : Tree) (cwd : Location) (path : String) :
    ∃ temp, t.Fresh cwd path temp := by
  rcases hmake : t.makeParts (start cwd path) (parentParts path) with ⟨t₁, reached⟩
  -- some name is the last one of no place at all
  obtain ⟨temp, htemp⟩ := Infinite.exists_notMem_finset (t₁.keys.filterMap List.getLast?).toFinset
  refine ⟨temp, fun t₂ parent hparent => ?_⟩
  obtain ⟨rfl, -⟩ := Prod.mk.inj (hmake.symm.trans hparent)
  cases hget : t₁.get? (parent ++ [temp]) with
  | none => rfl
  | some entry =>
    refine absurd (List.mem_toFinset.mpr (List.mem_filterMap.mpr ⟨parent ++ [temp], ?_, ?_⟩)) htemp
    · exact List.mem_map_of_mem (OrderedMap.get?_eq_some_iff.mp hget)
    · exact List.getLast?_concat

/-- Where nothing is refused and the name of the new file is free, the steps come to the writing. -/
theorem replace_eq_write {temp : String} (hfresh : t.Fresh cwd path temp) (bytes : Bytes) :
    t.replace cwd path bytes temp none = t.write cwd path bytes := by
  rw [replace, write]
  · rcases hmake : t.makeParts (start cwd path) (parentParts path) with ⟨t₁, reached⟩
    cases reached with
    | none => rfl
    | some parent =>
      exact replaceIn_none (hfresh t₁ parent hmake) (lastName? path) bytes
  · intro made hrefused
    cases hrefused

theorem write_outcome (t : Tree) (cwd : Location) (path : String) (bytes : Bytes) :
    Outcome t cwd path bytes (t.write cwd path bytes) := by
  obtain ⟨temp, hfresh⟩ := exists_fresh t cwd path
  rw [← replace_eq_write hfresh]
  exact replace_outcome t cwd path bytes temp none

/-! ## Places that are spared -/

/-- A place is as it was, or nothing was there and it is a directory on the way now. -/
def Spared (t t' : Tree) (here : Location) (parts : List String) (place : Location) : Prop :=
  t'.get? place = t.get? place ∨
    t.get? place = none ∧ t'.get? place = some .directory ∧
      ∃ passed, passed <+: parts ∧ place = arrive here passed

theorem Spared.directory (h : Spared t t' here parts place) (hdir : t.get? place = some .directory) :
    t'.get? place = some .directory := by
  rcases h with hsame | ⟨hnone, -⟩
  · rw [hsame, hdir]
  · rw [hnone] at hdir
    exact nomatch hdir

theorem Spared.held (h : Spared t t' here parts place) {entry : Entry} (hentry : entry ≠ .directory) :
    t'.get? place = some entry ↔ t.get? place = some entry := by
  rcases h with hsame | ⟨hnone, hdir, -⟩
  · rw [hsame]
  · rw [hnone, hdir]
    exact iff_of_false (fun heq => hentry (Option.some.inj heq).symm) nofun

theorem Spared.mono {here' : Location} {parts' : List String}
    (hway : ∀ passed, passed <+: parts → ∃ passed', passed' <+: parts' ∧
      arrive here passed = arrive here' passed')
    (h : Spared t t' here parts place) : Spared t t' here' parts' place := by
  refine h.imp_right fun ⟨hnone, hdir, passed, hpassed, hplace⟩ => ⟨hnone, hdir, ?_⟩
  obtain ⟨passed', hpassed', hsame⟩ := hway passed hpassed
  exact ⟨passed', hpassed', hplace.trans hsame⟩

theorem Spared.cons {part : String} {rest : List String} {next : Location}
    (hnext : ∀ passed, arrive here (part :: passed) = arrive next passed)
    (h : Spared t t' next rest place) : Spared t t' here (part :: rest) place :=
  h.mono fun passed hpassed =>
    ⟨part :: passed, List.cons_prefix_cons.mpr ⟨rfl, hpassed⟩, (hnext passed).symm⟩

theorem arrive_stays {part : String} (h : stays part = true) (rest : List String) :
    arrive here (part :: rest) = arrive here rest := by
  rw [arrive, if_pos h]

theorem arrive_up {part : String} (hstays : ¬stays part = true) (h : part = "..")
    (rest : List String) : arrive here (part :: rest) = arrive here.dropLast rest := by
  rw [arrive, if_neg hstays, if_pos h]

theorem arrive_name {part : String} (hstays : ¬stays part = true) (h : ¬part = "..")
    (rest : List String) : arrive here (part :: rest) = arrive (here ++ [part]) rest := by
  rw [arrive, if_neg hstays, if_neg h]

/-- Making directories spares every place. -/
theorem spared_makeAll (t : Tree) (here : Location) (parts : List String) (place : Location) :
    Spared t (t.makeAll here parts).1 here parts place := by
  induction parts generalizing t here with
  | nil => exact .inl rfl
  | cons part rest ih =>
      by_cases hstays : stays part = true
      · rw [makeAll_stays hstays]
        exact (ih t here).cons (arrive_stays hstays)
      by_cases hup : part = ".."
      · rw [makeAll_up hstays hup]
        exact (ih t here.dropLast).cons (arrive_up hstays hup)
      rw [makeAll, if_neg hstays, if_neg hup]
      dsimp only
      split
      · exact (ih t _).cons (arrive_name hstays hup)
      · exact .inl rfl
      next hnone =>
      split
      · have hrest := (ih (t.insert (here ++ [part]) .directory) (here ++ [part])).cons
          (arrive_name hstays hup)
        by_cases hplace : place = here ++ [part]
        · subst hplace
          have hdir := makeAll_extends (t.insert (here ++ [part]) .directory) (here ++ [part]) rest
            (here ++ [part]) (by rw [OrderedMap.get?_insert, if_pos rfl])
          exact .inr ⟨hnone, hdir, [part], List.cons_prefix_cons.mpr ⟨rfl, List.nil_prefix⟩,
            (arrive_name hstays hup []).symm⟩
        · rwa [Spared, OrderedMap.get?_insert, if_neg hplace] at hrest
      · exact .inl rfl

theorem spared_makeParts (t : Tree) (here : Location) (parts : List String) (place : Location) :
    Spared t (t.makeParts here parts).1 here parts place := by
  rw [makeParts]
  split
  · exact .inl rfl
  · exact spared_makeAll t here parts place

/-- Directories are made one after the other. -/
theorem makeAll_append {passed more : List String}
    (hmake : t.makeAll here (passed ++ more) = (t₁, some place)) :
    ∃ t', t.makeAll here passed = (t', some (arrive here passed)) ∧
      t'.makeAll (arrive here passed) more = (t₁, some place) := by
  induction passed generalizing t here with
  | nil => exact ⟨t, rfl, hmake⟩
  | cons part rest ih =>
      rw [List.cons_append] at hmake
      by_cases hstays : stays part = true
      · rw [makeAll_stays hstays] at hmake ⊢
        rw [arrive_stays hstays]
        exact ih hmake
      by_cases hup : part = ".."
      · rw [makeAll_up hstays hup] at hmake ⊢
        rw [arrive_up hstays hup]
        exact ih hmake
      rw [arrive_name hstays hup]
      rw [makeAll, if_neg hstays, if_neg hup] at hmake ⊢
      dsimp only at hmake ⊢
      split at hmake
      · exact ih hmake
      · cases hmake
      split at hmake
      · next hname =>
        rw [if_pos hname]
        exact ih hmake
      · cases hmake

/-- Every directory on the way to directories that were made is there. -/
theorem isDirectory_of_makeAll (hsound : t.Sound) (hhere : t.isDirectory here = true)
    (hmake : t.makeAll here parts = (t₁, some place)) {passed : List String}
    (hpassed : passed <+: parts) : t₁.isDirectory (arrive here passed) = true := by
  obtain ⟨more, rfl⟩ := hpassed
  obtain ⟨t', hpassed, hmore⟩ := makeAll_append hmake
  have hkept := makeAll_extends t' (arrive here passed) more
  rw [hmore] at hkept
  exact hkept.isDirectory (hsound.makeAll hhere hpassed).2

/-! ## All or nothing -/

/-- The place of the file of a path. -/
def target? (cwd : Location) (path : String) : Option Location :=
  (lastName? path).map fun name => arrive (start cwd path) (parentParts path) ++ [name]

/-- What a writing may do: it puts the whole file in its place, with all the directories on the way,
or nothing anywhere; and in no case does it change anything else, but for directories on the way. -/
structure Atomic (t : Tree) (cwd : Location) (path : String) (bytes : Bytes)
    (r : Tree × Except Failure Unit) : Prop where
  found : r.2 = .ok () → r.1.find? cwd path = some (.file bytes)
  parents : r.2 = .ok () → ∀ passed, passed <+: parentParts path →
    r.1.isDirectory (arrive (start cwd path) passed) = true
  spared : ∀ place, (r.2 = .ok () → target? cwd path ≠ some place) →
    Spared t r.1 (start cwd path) (parentParts path) place
  sound : r.1.Sound

theorem target?_eq {name : String}
    (hmake : t.makeParts (start cwd path) (parentParts path) = (t₁, some parent))
    (hname : lastName? path = some name) : target? cwd path = some (parent ++ [name]) := by
  rw [target?, hname, Option.map_some, makeAll_eq_arrive (makeAll_of_makeParts hmake)]

theorem Outcome.atomic {r : Tree × Except Failure Unit} (hsound : t.Sound)
    (hcwd : t.isDirectory cwd = true) (h : Outcome t cwd path bytes r) :
    Atomic t cwd path bytes r := by
  have hstart := isDirectory_start hcwd path
  cases h with
  | @nothing parts hparts =>
    refine ⟨nofun, nofun, fun place _ => ?_, ?_⟩
    · exact (spared_makeParts t _ parts place).mono fun passed hpassed =>
        ⟨passed, hpassed.trans hparts, rfl⟩
    · dsimp only
      rw [makeParts]
      split
      · exact hsound
      · exact hsound.makeAll_fst hstart parts
  | @all t₁ parent name hmake hname hfree =>
    have hmakeAll := makeAll_of_makeParts hmake
    have hext := @extends_insert t₁ _ (.file bytes) hfree
    obtain ⟨hsound₁, hparent⟩ := hsound.makeAll hstart hmakeAll
    refine ⟨fun _ => ?_, fun _ passed hpassed => ?_, fun place hplace => ?_,
      hsound₁.insert hparent name hfree⟩
    · exact (reaches_of_makeParts hsound hcwd hmake hname hext).find?
        (by rw [OrderedMap.get?_insert, if_pos rfl])
    · exact hext.isDirectory (isDirectory_of_makeAll hsound hstart hmakeAll hpassed)
    · have hother : place ≠ parent ++ [name] := by
        rintro rfl
        exact hplace rfl (target?_eq hmake hname)
      have hspared := spared_makeParts t (start cwd path) (parentParts path) place
      rw [hmake] at hspared
      rwa [Spared, OrderedMap.get?_insert, if_neg hother]

/-- Nothing can be written where a directory is, or below something else than a directory. -/
def Blocked (t : Tree) (cwd : Location) (path : String) : Prop :=
  (∃ place, target? cwd path = some place ∧ t.get? place = some .directory) ∨
    ∃ passed entry, passed <+: parentParts path ∧ entry ≠ .directory ∧
      t.entry? (arrive (start cwd path) passed) = some entry

theorem Outcome.error_of_blocked {r : Tree × Except Failure Unit} (hsound : t.Sound)
    (hcwd : t.isDirectory cwd = true) (h : Outcome t cwd path bytes r) (hblocked : Blocked t cwd path) :
    r.2 = .error .files := by
  have hstart := isDirectory_start hcwd path
  cases h with
  | nothing => rfl
  | @all t₁ parent name hmake hname hfree =>
    exfalso
    have hmakeAll := makeAll_of_makeParts hmake
    have hkept := makeAll_extends t (start cwd path) (parentParts path)
    rw [hmakeAll] at hkept
    rcases hblocked with ⟨place, htarget, hdir⟩ | ⟨passed, entry, hpassed, hentry, hget⟩
    · rw [target?_eq hmake hname] at htarget
      exact hfree (Option.some.inj htarget ▸ hkept _ hdir)
    · have hspared := spared_makeAll t (start cwd path) (parentParts path)
        (arrive (start cwd path) passed)
      have hdir := isDirectory_of_makeAll hsound hstart hmakeAll hpassed
      rw [hmakeAll] at hspared
      unfold entry? at hget
      split at hget
      · exact hentry (Option.some.inj hget).symm
      next htop =>
      rcases isDirectory_iff.mp hdir with htop' | hdir
      · exact htop (List.isEmpty_iff.mpr htop')
      · rw [(hspared.held hentry).mpr hget] at hdir
        exact hentry (Option.some.inj hdir)

theorem write_eq_ok_iff (hsound : t.Sound) (hcwd : t.isDirectory cwd = true) :
    (t.write cwd path bytes).2 = .ok () ↔ t.Writable cwd path := by
  constructor
  · intro hok
    have houtcome := write_outcome t cwd path bytes
    rcases hresult : t.write cwd path bytes with ⟨t', result⟩
    rw [hresult] at hok houtcome
    cases houtcome with
    | nothing => exact nomatch hok
    | all hmake hname hfree => exact ⟨_, _, _, hmake, hname, hfree⟩
  · intro hwritable
    obtain ⟨t', hwrite, -⟩ := find?_write hsound hcwd hwritable bytes
    rw [hwrite]

end Lapse.Files.Tree
