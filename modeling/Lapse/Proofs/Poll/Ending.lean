import Lapse.Poll.Pass
import Mathlib.Data.List.Induction

/-!
# How a visit to a record ends

A visit that is not cut short ends in one of six ways, and each adds to the tally in its own way.  So the
tally of a kind says how often its records ended in each.
-/

namespace Lapse.Poll

/-- How a visit ends. -/
inductive Ending where
  /-- The record is not due. -/
  | waiting
  /-- The record has no lifetime. -/
  | malformed
  /-- The request is not there. -/
  | missing
  | applied
  | skipped
  | failed
  deriving DecidableEq

namespace Ending

/-- How a visit ends that undid something, or failed to. -/
def ofAnswer : Except Failure Outcome → Ending
  | .ok .applied => .applied
  | .ok (.skipped _) => .skipped
  | .error _ => .failed

/-- What being listed would have said of the record: whether it is due, unless it has no lifetime. -/
def due? : Ending → Option Bool
  | .waiting => some false
  | .malformed => none
  | _ => some true

theorem due?_ofAnswer (result : Except Failure Outcome) : (ofAnswer result).due? = some true := by
  rcases result with why | outcome
  · rfl
  · cases outcome with
    | applied => rfl
    | skipped why => rfl

/-- Visits that end otherwise than by waiting end in one of the other ways. -/
theorem countP_ne_waiting (es : List Ending) :
    es.countP (· ≠ .waiting) = es.count .applied + es.count .skipped + es.count .failed +
      es.count .missing + es.count .malformed := by
  induction es with
  | nil => rfl
  | cons e es ih =>
      rw [List.countP_cons, ih]
      cases e <;> simp <;> omega

theorem length_eq_count_add (es : List Ending) :
    es.length = es.count .waiting + es.countP (· ≠ .waiting) := by
  induction es with
  | nil => rfl
  | cons e es ih =>
      rw [List.length_cons, ih, List.countP_cons]
      cases e <;> simp <;> omega

/-- What being listed would have said of the records tells how their visits ended, but for the due
ones. -/
theorem count_due? {es : List Ending} {due : List (Option Bool)} (h : es.map due? = due) :
    es.length = due.count (some true) + due.count (some false) + due.count none ∧
      es.count .waiting = due.count (some false) ∧ es.count .malformed = due.count none ∧
      es.count .applied + es.count .skipped + es.count .failed + es.count .missing =
        due.count (some true) := by
  subst h
  induction es with
  | nil => exact ⟨rfl, rfl, rfl, rfl⟩
  | cons e es ih =>
      obtain ⟨hlength, hwaiting, hmalformed, hdue⟩ := ih
      cases e <;> simp [due?, hlength, hwaiting, hmalformed] <;> omega

end Ending

namespace Tally

/-- Count a visit. -/
def count (t : Tally) (e : Ending) : Tally :=
  let t := { t with examined := t.examined + 1 }
  match e with
  | .waiting => { t with notDue := t.notDue + 1 }
  | .malformed => { t with malformed := t.malformed + 1, deleted := t.deleted + 1 }
  | .missing => { t with missingRequest := t.missingRequest + 1, deleted := t.deleted + 1 }
  | .applied => { t with applied := t.applied + 1, deleted := t.deleted + 1 }
  | .skipped => { t with skipped := t.skipped + 1, deleted := t.deleted + 1 }
  | .failed => { t with failed := t.failed + 1, deleted := t.deleted + 1 }

/-- Count a visit that is cut short: its record is not removed, and only a due record may have been
dealt with. -/
def countCut (t : Tally) : Option Ending → Tally
  | none => { t with examined := t.examined + 1 }
  | some e => { t.count e with deleted := t.deleted }

theorem count_kind (t : Tally) (e : Ending) : (t.count e).kind = t.kind := by
  cases e <;> rfl

theorem count_error (t : Tally) (e : Ending) : (t.count e).error = t.error := by
  cases e <;> rfl

theorem countCut_kind (t : Tally) (e? : Option Ending) : (t.countCut e?).kind = t.kind := by
  cases e? with
  | none => rfl
  | some e => exact t.count_kind e

/-- A due record that is removed after all is counted as if nothing had happened. -/
theorem countCut_removed {e : Ending} (he : e.due? = some true) (t : Tally) :
    { t.countCut (some e) with deleted := (t.countCut (some e)).deleted + 1 } = t.count e := by
  cases e with
  | waiting => exact nomatch he
  | malformed => exact nomatch he
  | missing => rfl
  | applied => rfl
  | skipped => rfl
  | failed => rfl

/-- The tally of visits that ended in these ways: the number of each, as far as the counters go. -/
def ofEndings (kind : Kind) (es : List Ending) : Tally where
  kind := kind
  examined := .ofNat es.length
  notDue := .ofNat (es.count .waiting)
  applied := .ofNat (es.count .applied)
  skipped := .ofNat (es.count .skipped)
  failed := .ofNat (es.count .failed)
  missingRequest := .ofNat (es.count .missing)
  malformed := .ofNat (es.count .malformed)
  deleted := .ofNat (es.countP (· ≠ .waiting))

theorem ofEndings_concat (kind : Kind) (es : List Ending) (e : Ending) :
    ofEndings kind (es ++ [e]) = (ofEndings kind es).count e := by
  cases e <;> simp [ofEndings, count, List.count_append, UInt32.ofNat_add]

/-- Counting visits one after another comes to their tally. -/
theorem foldl_count (kind : Kind) (es : List Ending) :
    es.foldl count { kind } = ofEndings kind es := by
  induction es using List.reverseRecOn with
  | nil => rfl
  | append_singleton es e ih =>
      rw [List.foldl_append, ih, ofEndings_concat]
      rfl

/-- What being listed would have said of the records tells the tally, but for how the due ones
ended. -/
theorem ofEndings_due? (kind : Kind) {es : List Ending} {due : List (Option Bool)}
    (h : es.map Ending.due? = due) :
    let t := ofEndings kind es
    t.examined =
        .ofNat (due.count (some true) + due.count (some false) + due.count none) ∧
      t.notDue = .ofNat (due.count (some false)) ∧ t.malformed = .ofNat (due.count none) ∧
      t.applied + t.skipped + t.failed + t.missingRequest = .ofNat (due.count (some true)) := by
  obtain ⟨hlength, hwaiting, hmalformed, hdue⟩ := Ending.count_due? h
  refine ⟨congrArg UInt32.ofNat hlength, congrArg UInt32.ofNat hwaiting,
    congrArg UInt32.ofNat hmalformed, ?_⟩
  rw [← hdue]
  simp only [ofEndings, UInt32.ofNat_add]

end Tally

end Lapse.Poll
