import Lapse.Command.List
import Lapse.Command.Poll
import Lapse.Proofs.Json.Value
import Lapse.Proofs.Text.Decimal
import Lapse.Proofs.Text.Table

/-!
# What commands print

A report is printed as a line on its instant and a table with a row for each kind, and a listing as a
table with a row for each action.  Either is printed as JSON where that is asked for.
-/

namespace Lapse.Command

/-! ## JSON -/

/-- One text was printed, the tokens of the data with any white space around them. -/
def PrintsJson (d : Data) (lines : List String) : Prop :=
  ∃ text, lines = [text] ∧ Json.Spaced (Json.words d) text.toList

theorem printsJson_prettyText {α : Type} [ToData α] (a : α) :
    PrintsJson (toData a) [Json.prettyText a] := by
  refine ⟨_, rfl, ?_⟩
  rw [Json.prettyText, String.toList_ofList]
  exact Json.spaced_spread 0 (toData a)

/-! ## Reports -/

/-- What JSON tells of a kind. -/
def tallyData (t : Poll.Tally) : Data :=
  .record <|
    [("kind", .str t.kind.name), ("examined", .int t.examined.toNat),
      ("not_due", .int t.notDue.toNat), ("applied", .int t.applied.toNat),
      ("skipped", .int t.skipped.toNat), ("failed", .int t.failed.toNat),
      ("missing_request", .int t.missingRequest.toNat), ("malformed", .int t.malformed.toNat),
      ("deleted", .int t.deleted.toNat)] ++
    t.error.toList.map fun why => ("error", .str why)

/-- The cells of the row of a kind. -/
def tallyCells (t : Poll.Tally) : List String :=
  [t.kind.name, toString t.examined.toNat, toString t.notDue.toNat, toString t.applied.toNat,
    toString t.skipped.toNat, toString t.failed.toNat, toString t.missingRequest.toNat,
    toString t.malformed.toNat, toString t.deleted.toNat, t.error.getD ""]

/-- A report was printed. -/
def PrintsReport (json : Bool) (r : Poll.Report) (lines : List String) : Prop :=
  if json then
    PrintsJson
      (.record [("now_millis", .int r.now.toInt), ("kinds", .list (r.kinds.map tallyData))]) lines
  else
    ∃ table, lines = ("Polled at " ++ Instant.text r.now) :: table ∧
      Table.Tabulated
        ["KIND", "SEEN", "NOT DUE", "APPLIED", "SKIPPED", "FAILED", "NO REQUEST", "MALFORMED",
          "DELETED", "ERROR"]
        (r.kinds.map tallyCells) table

/-- The lines that are printed of a report. -/
def shown (json : Bool) (r : Poll.Report) : List String :=
  if json then [Json.prettyText r] else reportLines r

theorem numberText_eq (n : Nat) : numberText n = toString n := by
  rw [numberText, Decimal.digits_eq_toDigits, Nat.toString_eq_repr, Nat.repr_eq_ofList_toDigits]

theorem toData_tally (t : Poll.Tally) : toData t = tallyData t := by
  rcases t with ⟨_, _, _, _, _, _, _, _, _, _ | why⟩ <;> rfl

theorem reportRow_eq (t : Poll.Tally) : reportRow t = tallyCells t := by
  simp [reportRow, tallyCells, numberText_eq]

/-- **REPORTS**: what is printed of a report is the report. -/
theorem printsReport_shown (json : Bool) (r : Poll.Report) : PrintsReport json r (shown json r) := by
  cases json with
  | true =>
      have hdata : toData r = .record
          [("now_millis", .int r.now.toInt), ("kinds", .list (r.kinds.map tallyData))] := by
        rw [← funext toData_tally]
        rfl
      show PrintsJson _ _
      rw [← hdata]
      exact printsJson_prettyText r
  | false =>
      refine ⟨_, rfl, ?_⟩
      rw [← funext reportRow_eq]
      exact Table.tabulated_lines reportHeaders (r.kinds.map reportRow)

/-- A report is printed in one way as a table. -/
theorem PrintsReport.unique {r : Poll.Report} {lines lines' : List String}
    (h : PrintsReport false r lines) (h' : PrintsReport false r lines') : lines = lines' := by
  obtain ⟨table, rfl, htable⟩ := h
  obtain ⟨table', rfl, htable'⟩ := h'
  rw [htable.unique htable']

/-! ## Listings -/

/-- What JSON tells of an action that is listed: all that is stored of it, its deadline and whether it is
due. -/
def listedData (l : Listed) : Data :=
  .record <| (toData l.action).members ++
    [("deadline_millis", l.deadline.elim .null fun deadline => .int deadline.toInt),
      ("due", l.due.elim .null .bool)]

/-- The cells of the row of an action. -/
def listedCells (l : Listed) : List String :=
  [l.action.kind.name, l.action.requestId, l.action.user, l.action.actionId,
    Instant.text l.action.startMillis, l.deadline.elim "-" Instant.text,
    l.due.elim "invalid" fun due => if due then "yes" else "no"]

/-- A listing was printed. -/
def PrintsListing (json : Bool) (listed : List Listed) (lines : List String) : Prop :=
  if json then PrintsJson (.list (listed.map listedData)) lines
  else if listed = [] then lines = ["No expiring actions."]
  else
    Table.Tabulated ["KIND", "REQUEST", "USER", "ACTION ID", "STARTED", "DEADLINE", "DUE"]
      (listed.map listedCells) lines

/-- The lines that are printed of a listing. -/
def shownListing (json : Bool) (listed : List Listed) : List String :=
  if json then [Json.prettyText listed]
  else if listed.isEmpty then ["No expiring actions."]
  else Table.lines listHeaders (listed.map Listed.row)

theorem toData_listed (l : Listed) : toData l = listedData l := by
  rcases l with ⟨a, _ | deadline, _ | due⟩ <;> rfl

theorem row_eq (l : Listed) : l.row = listedCells l := by
  rcases l with ⟨a, _ | deadline, _ | _ | _⟩ <;> rfl

/-- **LISTINGS**: what is printed of a listing is the listing. -/
theorem printsListing_shown (json : Bool) (listed : List Listed) :
    PrintsListing json listed (shownListing json listed) := by
  cases json with
  | true =>
      have hdata : toData listed = .list (listed.map listedData) := by
        rw [← funext toData_listed]
        rfl
      show PrintsJson _ _
      rw [← hdata]
      exact printsJson_prettyText listed
  | false =>
      cases listed with
      | nil => rfl
      | cons l rest =>
          show Table.Tabulated _ _ (Table.lines listHeaders ((l :: rest).map Listed.row))
          rw [funext row_eq]
          exact Table.tabulated_lines listHeaders ((l :: rest).map listedCells)

/-- A listing is printed in one way as a table. -/
theorem PrintsListing.unique {listed : List Listed} {lines lines' : List String}
    (h : PrintsListing false listed lines) (h' : PrintsListing false listed lines') :
    lines = lines' := by
  rw [PrintsListing, if_neg Bool.false_ne_true] at h h'
  split at h
  · next hnone =>
      rw [if_pos hnone] at h'
      exact h.trans h'.symm
  · next hsome =>
      rw [if_neg hsome] at h'
      exact h.unique h'

end Lapse.Command
