import Lapse.Poll.Report
import Lapse.Poll.Revert

/-!
# One poll

A poll visits the kinds in order.  For each it lists the records, leaves those that are not due,
undoes the others against their requests, and removes each of these whether or not undoing it
succeeded.  A revert that fails is logged and counted and holds up nothing; only a failure of the
store, or of the look-up of a request, cuts a kind short, and then the next kind still runs.
-/

namespace Lapse.Poll

open World (say)

variable (s : Conditions)

/-- Undo a due action whose request is there, and count how that ended. -/
def settle (a : Action) (lifetime : UInt64) (entry : Request.Entry) (t : Tally) :
    StateM World Tally := do
  let message := a.expiryMessage lifetime
  match ← (revert s a entry message).run with
  | .ok .applied =>
    say .info message
    return { t with applied := t.applied + 1 }
  | .ok (.skipped why) =>
    say .warn ("discarding " ++ a.describe ++ ": " ++ why)
    return { t with skipped := t.skipped + 1 }
  | .error _ =>
    say .error ("while trying to apply " ++ a.describe ++ " for " ++ a.requestId)
    return { t with failed := t.failed + 1 }

/-- Look at one record.  The failure, if there is one, cuts the kind short. -/
def visit (a : Action) (t : Tally) : StateM World (Tally × Option Failure) := do
  let t := { t with examined := t.examined + 1 }
  match a.standing s.now s.config with
  | .malformed _ =>
    say .warn ("discarding malformed " ++ a.describe)
    match ← (removeAction s t.kind a.requestId).run with
    | .error why => return (t, some why)
    | .ok () => return ({ t with malformed := t.malformed + 1, deleted := t.deleted + 1 }, none)
  | .waiting => return ({ t with notDue := t.notDue + 1 }, none)
  | .due lifetime =>
    match ← (findRequest s a.requestId).run with
    | .error why => return (t, some why)
    | .ok found =>
      let t ← match found with
        | some entry => settle s a lifetime entry t
        | none => do
          say .warn ("request " ++ a.requestId ++ " not present, discarding " ++ a.describe)
          pure { t with missingRequest := t.missingRequest + 1 }
      match ← (removeAction s t.kind a.requestId).run with
      | .error why => return (t, some why)
      | .ok () => return ({ t with deleted := t.deleted + 1 }, none)

/-- Note that a kind was cut short. -/
def abort (t : Tally) (why : Failure) : StateM World Tally := do
  say .error ("expiring " ++ t.kind.name ++ " pass aborted")
  return { t with error := some why.message }

/-- Look at records one after another. -/
def sweep : List Action → Tally → StateM World Tally
  | [], t => return t
  | a :: rest, t => do
    match ← visit s a t with
    | (t, none) => sweep rest t
    | (t, some why) => abort t why

/-- Deal with one kind. -/
def passOf (kind : Kind) : StateM World Tally := do
  match ← (listActions s kind).run with
  | .error why => abort { kind } why
  | .ok actions => sweep s actions { kind }

/-- Deal with kinds one after another. -/
def passes : List Kind → StateM World (List Tally)
  | [] => return []
  | kind :: rest => do
    let t ← passOf s kind
    return t :: (← passes rest)

/-- One poll. -/
def poll : StateM World Report := return ⟨s.now, ← passes s Kind.all⟩

/-- One poll, and a line on how it ended. -/
def pollAndSum : StateM World Report := do
  let report ← poll s
  if report.deleted > 0 || report.hasErrors then
    say .info "expiring user-action poll finished"
  else
    say .debug "expiring user-action poll finished with nothing due"
  return report

end Lapse.Poll
