import Lapse.Proofs.Command.Poll
import Lapse.Proofs.Deadline
import Lapse.Proofs.Poll.Tallies

/-!
# Listing foretells polling

What is listed of a kind says what a poll at the same instant counts for it.  The one reads all records
at once and the other comes to each kind after it has removed and stored records of other kinds; yet every
action that is listed is visited, in the same order, and is due, waits or has no lifetime as listed.
-/

namespace Lapse.Command

open Lapse.Files

variable {s : Setting} {root : String} {m : Machine} {config : Config} {store : Store} {t : Tree}
  {place : Location} {kind : Kind}

/-! ## What is listed -/

/-- The actions of a listing, by the store that it finds. -/
def chosen (store : Store) : Option Kind → List Action
  | none => store.all
  | some kind => store.actions kind

/-- The word of the command line that asks for a kind, or for all. -/
def Asks : Option String → Option Kind → Prop
  | none, none => True
  | some word, some kind => Kind.ofWord? word = some kind
  | _, _ => False

/-- Looking up what is to be listed prints nothing. -/
theorem actions_ok {asked : Option String} {kind : Option Kind} (h : Asks asked kind)
    (place : Location) (store : Store) (m : Machine) :
    ∃ m', actions place store asked m = (.ok (chosen store kind), m') ∧ m'.output = m.output := by
  rw [actions.eq_def]
  rcases asked with _ | word
  · rcases kind with _ | kind
    · exact ⟨_, rfl, rfl⟩
    · exact h.elim
  · rcases kind with _ | kind
    · exact h.elim
    · have hword : Kind.ofWord? word = some kind := h
      dsimp only
      rw [hword]
      exact ⟨_, rfl, rfl⟩

/-- Listing a root whose settings and store can be read prints the actions found. -/
theorem list_ok (hconfig : Root.loadConfig m.files s.cwd root = .ok config)
    (hopen : Root.openStore m.files s.cwd root = (t, .ok (place, store)))
    {asked : Option String} {kind : Option Kind} (h : Asks asked kind) (json : Bool) :
    ∃ m' printed, list s root asked json m = (.ok (), m') ∧ m'.output = m.output ++ printed ∧
      PrintsListing json ((chosen store kind).map (Listed.ofAction s.wall config)) printed := by
  suffices hshown : ∃ m', list s root asked json m = (.ok (), m') ∧ m'.output = m.output ++
      shownListing json ((chosen store kind).map (Listed.ofAction s.wall config)) by
    obtain ⟨m', hlist, houtput⟩ := hshown
    exact ⟨m', _, hlist, houtput, printsListing_shown json _⟩
  have hstore : openStore s root { m with log := m.log ++ config.findings.map findingLine } =
      (.ok (place, store), m.opened config t) := change_ok hopen
  obtain ⟨m', hactions, houtput⟩ := actions_ok h place store (m.opened config t)
  rw [list, bind_ok (loadConfig_ok hconfig), bind_ok hstore]
  dsimp only
  rw [bind_ok hactions, shownListing]
  have hfound : m'.output = m.output := houtput
  rw [← hfound]
  cases json with
  | true => exact ⟨_, rfl, rfl⟩
  | false =>
      cases ((chosen store kind).map (Listed.ofAction s.wall config)).isEmpty with
      | true => exact ⟨_, rfl, rfl⟩
      | false => exact ⟨_, rfl, rfl⟩

/-- An action is listed with a deadline exactly if it is listed as due or not. -/
theorem isSome_deadline (now : Int64) (config : Config) (a : Action) :
    (Listed.ofAction now config a).deadline.isSome = (Listed.ofAction now config a).due.isSome := by
  show (a.deadline config).toOption.isSome = (a.isDue now config).toOption.isSome
  cases hspan : a.span? config with
  | none =>
      rw [Action.deadline_of_span?_none hspan, Action.isDue_of_span?_none hspan]
      rfl
  | some d =>
      rw [Action.deadline_of_span? hspan, Action.isDue_of_span? hspan]
      rfl

/-! ## What is foretold -/

/-- **FORETELLING**: listing a store in which every record that reads as an action stands under that
action's key foretells a poll of it at that instant, if the poll's own calls do not fail.  Listing a kind
shows those of all actions that are of the kind, and each action has a deadline exactly if it is marked
as due or not.  The poll visits the actions listed of the kind, in their order, and finds each as it was
marked; so its tally counts those marked as due, as not due and as neither. -/
theorem list_foretells (hconfig : Root.loadConfig m.files s.cwd root = .ok config)
    (hopen : Root.openStore m.files s.cwd root = (t, .ok (place, store))) (hstore : store.Keyed)
    {word : String} (hword : Kind.ofWord? word = some kind) {p : Poll.Conditions}
    (hp : p.SparesPoll) (hnow : p.now = s.wall) (hsettings : p.config = config)
    {w : Poll.World} (hw : w.store = store) :
    let every := store.all.map (Listed.ofAction s.wall config)
    let listed := every.filter fun l => l.action.kind = kind
    let marks := listed.map (·.due)
    let y := marks.count (some true)
    let n := marks.count (some false)
    let i := marks.count none
    (∀ json, ∃ m' printed, list s root none json m = (.ok (), m') ∧
      m'.output = m.output ++ printed ∧ PrintsListing json every printed) ∧
    (∀ json, ∃ m' printed, list s root (some word) json m = (.ok (), m') ∧
      m'.output = m.output ++ printed ∧ PrintsListing json listed printed) ∧
    (∀ l ∈ every, l.deadline.isSome = l.due.isSome) ∧
    ∃ es w₁, Poll.Ends p kind es w₁ (Poll.after (Poll.passOf p kind) (w.upTo p kind)) ∧
      es.map (fun e => (e.1, e.2.due?)) = listed.map (fun l => (l.action, l.due)) ∧
      ∃ tally, (Poll.answer (Poll.poll p) w).kind? kind = some tally ∧ tally.error = none ∧
        tally = .ofEndings kind (es.map Prod.snd) ∧
        tally.examined = .ofNat (y + n + i) ∧ tally.notDue = .ofNat n ∧
        tally.malformed = .ofNat i ∧
        tally.applied + tally.skipped + tally.failed + tally.missingRequest = .ofNat y := by
  dsimp only
  have hlisted : (store.all.map (Listed.ofAction s.wall config)).filter
      (fun l => l.action.kind = kind) =
        (store.actions kind).map (Listed.ofAction s.wall config) := by
    rw [← hstore.filter_all kind, List.filter_map]
    rfl
  rw [hlisted]
  refine ⟨list_ok hconfig hopen (show Asks none none from trivial),
    list_ok hconfig hopen (show Asks (some word) (some kind) from hword), fun l hl => ?_, ?_⟩
  · obtain ⟨a, -, rfl⟩ := List.mem_map.mp hl
    exact isSome_deadline s.wall config a
  · obtain ⟨es, w₁, hes, -, hends, htally⟩ := Poll.poll_ends hp kind w
    have hfound : es.map (fun e => (e.1, e.2.due?)) =
        ((store.actions kind).map (Listed.ofAction s.wall config)).map
          (fun l => (l.action, l.due)) := by
      rw [← hw, ← hes, List.map_map, List.map_map]
      refine List.map_congr_left fun e he => ?_
      show (e.1, e.2.due?) = (e.1, (e.1.isDue s.wall config).toOption)
      rw [hends.due? e he, hnow, hsettings]
    have hmarks : (es.map Prod.snd).map Poll.Ending.due? =
        ((store.actions kind).map (Listed.ofAction s.wall config)).map (·.due) := by
      have hsecond := congrArg (List.map Prod.snd) hfound
      rw [List.map_map, List.map_map] at hsecond
      rw [List.map_map]
      exact hsecond
    exact ⟨es, w₁, hends, hfound, _, htally, rfl, rfl, Poll.Tally.ofEndings_due? kind hmarks⟩

/-- Pauses that began at the same time: of five seconds, of a day, and of no length. -/
def threePauses : Store :=
  let pause (r : String) (durationMillis : Option UInt64) : Action :=
    { requestId := r, actionId := "p-1", user := "alice", startMillis := 0
      terms := { durationMillis }, undo := .pause }
  ((Store.save .empty (pause "api" (some 5000))).save (pause "db" (some 86400000))).save
    (pause "web" none)

theorem threePauses_keyed : threePauses.Keyed :=
  ((Store.keyed_empty.save (Action.decode_encode _)).save (Action.decode_encode _)).save
    (Action.decode_encode _)

/-- A root that has the three pauses. -/
def srvPauses : Tree :=
  stocked {} threePauses

/-- A pause is listed as due, one as not due and one without a deadline, and the poll counts them so. -/
theorem list_foretells_threePauses :
    (∃ m', list later "/srv" (some "pause") false { files := srvPauses } = (.ok (), m') ∧
      m'.output =
        ["KIND   REQUEST  USER   ACTION ID  STARTED               DEADLINE              DUE",
          "-----  -------  -----  ---------  --------------------  --------------------  -------",
          "pause  api      alice  p-1        1970-01-01T00:00:00Z  1970-01-01T00:00:05Z  yes",
          "pause  db       alice  p-1        1970-01-01T00:00:00Z  1970-01-02T00:00:00Z  no",
          "pause  web      alice  p-1        1970-01-01T00:00:00Z  -                     invalid"]) ∧
    ∃ tally, (Poll.answer (Poll.poll (.calm 10000)) { store := threePauses }).kind? .pause =
        some tally ∧ tally.examined = 3 ∧ tally.notDue = 1 ∧ tally.malformed = 1 ∧
      tally.applied + tally.skipped + tally.failed + tally.missingRequest = 1 := by
  have hconfig : Root.loadConfig srvPauses later.cwd "/srv" = .ok ({} : Config) := rfl
  have hopen : Root.openStore srvPauses later.cwd "/srv" =
      (srvPauses, .ok (["srv", ".expiry", "expiring.db"], threePauses)) := rfl
  obtain ⟨-, hlist, -, -, -, -, -, tally, htally, -, -, hexamined, hnotDue, hmalformed, hdue⟩ :=
    list_foretells (m := { files := srvPauses }) hconfig hopen threePauses_keyed
      (rfl : Kind.ofWord? "pause" = some .pause) (Poll.Conditions.reliable_calm 10000).sparesPoll
      rfl rfl (w := { store := threePauses }) rfl
  obtain ⟨m', printed, hlisting, houtput, hprinted⟩ := hlist false
  rw [hprinted.unique (printsListing_shown false _)] at houtput
  have hmarks : ((threePauses.all.map (Listed.ofAction later.wall {})).filter
      (fun l => l.action.kind = .pause)).map (·.due) = [some true, some false, none] := by
    decide +kernel
  rw [hmarks] at hexamined hnotDue hmalformed hdue
  refine ⟨⟨m', hlisting, houtput.trans ?_⟩, tally, htally, hexamined, hnotDue, hmalformed, hdue⟩
  decide +kernel

end Lapse.Command
