import Lapse.Proofs.Root.Place
import Lapse.Proofs.Store.Ledger

/-!
# Opening, using and reopening the store

A store is used through its table in the tree of files.  The directories on the way to the table
stay, so that the store that is opened again is the one that was left; whatever is asked of it in
whatever order, it answers as the ledger.
-/

namespace Lapse.Store

open Lapse.Files
open Lapse.Root (storeAt_eq_ok storeAt_of_get? openStore_of_get?)

/-- What is asked of an open store. -/
inductive Use where
  | save (a : Action)
  | remove (kind : Kind) (r : String)
  | list (kind : Kind)
  | all
  /-- The store is closed and opened again. -/
  | reopen

/-- What is answered, and the table after that. -/
def Use.act (st : Store) : Use → List Action × Store
  | .save a => ([], st.save a)
  | .remove kind r => ([], st.remove kind r)
  | .list kind => ((st.list kind).1, (st.list kind).2.1)
  | .all => (st.all, st)
  | .reopen => ([], st)

/-- An open store: the files, and the place of its table. -/
structure Handle where
  files : Tree
  place : Location

/-- Do what is asked of an open store. -/
def Handle.use (h : Handle) (cwd : Location) (root : String) :
    Use → Except Failure (List Action × Handle)
  | .reopen => do
    let (files, opened) := Root.openStore h.files cwd root
    let (place, _) ← opened
    return ([], { files, place })
  | u => do
    let (answer, st) := u.act (← Root.storeAt h.files h.place)
    return (answer, { h with files := h.files.insert h.place (.table st) })

/-- Do one thing after another; each answers on its own. -/
def Handle.run (cwd : Location) (root : String) :
    List Use → Handle → Except Failure (List (List Action) × Handle)
  | [], h => return ([], h)
  | u :: rest, h => do
    let (answer, h) ← h.use cwd root u
    let (answers, h) ← Handle.run cwd root rest h
    return (answer :: answers, h)

namespace Ledger

/-- What the ledger answers. -/
def answer (l : Ledger) : Use → List Action
  | .list kind => (l kind).values
  | .all => Kind.all.flatMap fun kind => (l kind).values
  | _ => []

/-- The ledger after a use. -/
def next (l : Ledger) : Use → Ledger
  | .save a => l.save a
  | .remove kind r => l.remove kind r
  | _ => l

/-- The ledger after one use after another. -/
def after (l : Ledger) (uses : List Use) : Ledger := uses.foldl next l

/-- What the ledger answers to one use after another. -/
def answers : List Use → Ledger → List (List Action)
  | [], _ => []
  | u :: rest, l => l.answer u :: answers rest (l.next u)

end Ledger

/-- A table that represents a ledger answers as the ledger, and goes on representing it. -/
theorem Represents.act {st : Store} {l : Ledger} (h : Represents st l) (u : Use) :
    (u.act st).1 = l.answer u ∧ Represents (u.act st).2 (l.next u) := by
  cases u with
  | save a => exact ⟨rfl, h.save a⟩
  | remove kind r => exact ⟨rfl, h.remove kind r⟩
  | list kind =>
      refine ⟨h.actions_eq kind, ?_⟩
      show Represents (st.healed kind) l
      rw [h.healed_eq kind]
      exact h
  | all => exact ⟨h.all_eq, h⟩
  | reopen => exact ⟨rfl, h⟩

/-- What opening a store comes to: it is at a place below the directories on the way to it. -/
theorem openStore_eq_ok {t t₁ : Tree} {cwd place : Location} {root : String} {st : Store}
    (h : Root.openStore t cwd root = (t₁, .ok (place, st))) :
    ∃ t₀ parent name, t.makeParts (Tree.start cwd (Root.storeFile root))
        (Tree.parentParts (Root.storeFile root)) = (t₀, some parent) ∧
      Tree.lastName? (Root.storeFile root) = some name ∧ place = parent ++ [name] ∧
      t₀.get? place ≠ some .directory ∧ t₁ = t₀.insert place (.table st) := by
  rw [Root.openStore] at h
  dsimp only at h
  split at h
  · cases h
  next t₀ parent hparts =>
  split at h
  · cases h
  next name hname =>
  split at h
  · cases h
  next st' hst =>
  obtain ⟨ht, hok⟩ := Prod.mk.inj h
  obtain ⟨rfl, rfl⟩ := Prod.mk.inj (Except.ok.inj hok)
  refine ⟨t₀, parent, name, hparts, hname, rfl, fun hdir => storeAt_eq_ok hst ?_, ht.symm⟩
  rw [Tree.entry?, if_neg (by simp)]
  exact hdir

/-- **REOPENING**: a store that is opened again has the table that was left at its place. -/
theorem openStore_again {t t₁ t₂ : Tree} {cwd place : Location} {root : String} {st st' : Store}
    (h : Root.openStore t cwd root = (t₁, .ok (place, st))) (hext : t₂.Extends t₁)
    (hget : t₂.get? place = some (.table st')) :
    Root.openStore t₂ cwd root = (t₂, .ok (place, st')) := by
  obtain ⟨t₀, parent, name, hparts, hname, rfl, hplace, rfl⟩ := openStore_eq_ok h
  have hagain := Tree.makeParts_again hparts (hext.trans (Tree.extends_insert hplace))
  exact openStore_of_get? hagain hname hget

section Run

variable {t t₁ files : Tree} {cwd place : Location} {root : String} {st₀ st : Store} {l : Ledger}

/-- One use of an open store answers as the ledger, leaves the directories and keeps the table. -/
theorem use_refines (hopen : Root.openStore t cwd root = (t₁, .ok (place, st₀)))
    (hext : files.Extends t₁) (hget : files.get? place = some (.table st)) (h : Represents st l)
    (u : Use) : ∃ files' st', Handle.use ⟨files, place⟩ cwd root u =
        .ok (l.answer u, ⟨files', place⟩) ∧
      files'.Extends t₁ ∧ files'.get? place = some (.table st') ∧ Represents st' (l.next u) := by
  obtain ⟨hanswer, hnext⟩ := h.act u
  have hreopen := openStore_again hopen hext hget
  have hread : Root.storeAt files place = .ok st := by
    obtain ⟨_, parent, name, -, -, rfl, -⟩ := openStore_eq_ok hopen
    exact storeAt_of_get? hget
  -- all uses but reopening read the table and put it back
  have hplace : files.get? place ≠ some .directory := by simp [hget]
  have hkept : ∀ st', Tree.Extends (files.insert place (.table st')) t₁ ∧
      (files.insert place (.table st')).get? place = some (.table st') := by
    intro st'
    refine ⟨(Tree.extends_insert hplace).trans hext, ?_⟩
    rw [OrderedMap.get?_insert, if_pos rfl]
  rw [← hanswer]
  cases u with
  | reopen =>
      refine ⟨files, st, ?_, hext, hget, hnext⟩
      rw [Handle.use, hreopen]
      rfl
  | _ =>
      refine ⟨_, _, ?_, (hkept _).1, (hkept _).2, hnext⟩
      rw [Handle.use, hread]
      · rfl
      · rintro ⟨⟩

theorem run_represents (hopen : Root.openStore t cwd root = (t₁, .ok (place, st₀)))
    (hext : files.Extends t₁) (hget : files.get? place = some (.table st)) (h : Represents st l)
    (uses : List Use) : ∃ files' st', Handle.run cwd root uses ⟨files, place⟩ =
        .ok (l.answers uses, ⟨files', place⟩) ∧
      files'.get? place = some (.table st') ∧ Represents st' (l.after uses) := by
  induction uses generalizing files st l with
  | nil => exact ⟨files, st, rfl, hget, h⟩
  | cons u rest ih =>
      obtain ⟨files₁, st₁, huse, hext₁, hget₁, h₁⟩ := use_refines hopen hext hget h u
      obtain ⟨files₂, st₂, hrun, hget₂, h₂⟩ := ih hext₁ hget₁ h₁
      refine ⟨files₂, st₂, ?_, hget₂, h₂⟩
      rw [Handle.run, huse]
      show (do let (answers, h) ← Handle.run cwd root rest ⟨files₁, place⟩
               return (_ :: answers, h)) = _
      rw [hrun]
      rfl

end Run

/-- **REFINEMENT**: a store that is empty when it is opened never fails, and answers every run of
uses as the ledger does.  What it then lists of a kind is in the byte order of the requests. -/
theorem run_refines {t t₁ : Tree} {cwd place : Location} {root : String}
    (hopen : Root.openStore t cwd root = (t₁, .ok (place, .empty))) (uses : List Use) :
    ∃ files st, Handle.run cwd root uses ⟨t₁, place⟩ =
        .ok (Ledger.empty.answers uses, ⟨files, place⟩) ∧
      Root.storeAt files place = .ok st ∧ Represents st (Ledger.empty.after uses) ∧
      ∀ kind, (st.actions kind).Pairwise fun a b =>
        Utf8.encode a.requestId < Utf8.encode b.requestId := by
  obtain ⟨t₀, parent, name, -, -, hplace, -, ht₁⟩ := openStore_eq_ok hopen
  have hget : t₁.get? place = some (.table .empty) := by
    rw [ht₁, OrderedMap.get?_insert, if_pos rfl]
  obtain ⟨files, st, hrun, htable, hst⟩ :=
    run_represents hopen (Tree.Extends.refl t₁) hget Represents.empty uses
  refine ⟨files, st, hrun, ?_, hst, fun kind => hst.actions_eq kind ▸ hst.byteOrder kind⟩
  subst hplace
  exact storeAt_of_get? htable

/-- A pause of a request. -/
def pauseOf (r : String) : Action where
  requestId := r
  actionId := "p-1"
  user := "alice"
  startMillis := 0
  terms := {}
  undo := .pause

/-- Requests around the slash, one of which is removed before the store is opened again. -/
def slashUses : List Use :=
  [.save (pauseOf "web0"), .save (pauseOf "web/"), .save (pauseOf "web"), .save (pauseOf ""),
    .remove .pause "web/", .reopen, .list .pause]

theorem run_refines_slashUses :
    ∃ files, Handle.run [] "/" slashUses
        ⟨(Root.openStore .empty [] "/").1, [".expiry", "expiring.db"]⟩ =
      .ok ([[], [], [], [], [], [], [pauseOf "", pauseOf "web", pauseOf "web0"]],
        ⟨files, [".expiry", "expiring.db"]⟩) := by
  have hopen : Root.openStore .empty [] "/" = ((Root.openStore .empty [] "/").1,
      .ok ([".expiry", "expiring.db"], .empty)) := by
    rfl
  obtain ⟨files, st, hrun, -, -, -⟩ := run_refines hopen slashUses
  have hanswers : Ledger.empty.answers slashUses =
      [[], [], [], [], [], [], [pauseOf "", pauseOf "web", pauseOf "web0"]] := by
    decide +kernel
  exact ⟨files, hanswers ▸ hrun⟩

end Lapse.Store
