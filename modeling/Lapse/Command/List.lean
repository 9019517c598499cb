import Lapse.Calendar
import Lapse.Command.Machine
import Lapse.Text.Table

/-!
# The command that lists

The stored actions are listed with their deadlines, and whether they are due; an action without a
lifetime has neither.  Listing one kind also removes its records that read as no action.
-/

namespace Lapse.Command

/-- An action as it is listed. -/
structure Listed where
  action : Action
  deadline : Option Int64
  due : Option Bool
  deriving DecidableEq

namespace Listed

/-- How an action is listed at an instant. -/
def ofAction (now : Int64) (config : Config) (action : Action) : Listed where
  action := action
  deadline := (action.deadline config).toOption
  due := (action.isDue now config).toOption

instance : ToData Listed where
  toData l := .record <|
    (toData l.action).members ++
    Data.member "deadline_millis" l.deadline ++
    Data.member "due" l.due

/-- What a table says of being due. -/
def dueText : Option Bool → String
  | some true => "yes"
  | some false => "no"
  | none => "invalid"

/-- The row of an action. -/
def row (l : Listed) : List String :=
  [l.action.kind.name, l.action.requestId, l.action.user, l.action.actionId,
    Instant.text l.action.startMillis, (l.deadline.map Instant.text).getD "-", dueText l.due]

end Listed

/-- The headers of a listing. -/
def listHeaders : List String :=
  ["KIND", "REQUEST", "USER", "ACTION ID", "STARTED", "DEADLINE", "DUE"]

/-- The actions of a kind, given by a word, or all of them. -/
def actions (place : Files.Location) (store : Store) : Option String → Effect (List Action)
  | none => do
    say store.allWarnings
    return store.all
  | some word => do
    match Kind.ofWord? word with
    | none => throw { cause := .unknownKind word }
    | some kind => do
      let (actions, store, lines) := store.list kind
      say lines
      keepStore place store
      return actions

/-- List the stored actions. -/
def list (s : Setting) (root : String) (kind : Option String) (json : Bool) : Effect Unit := do
  let config ← loadConfig s root
  let (place, store) ← openStore s root
  let listed := (← actions place store kind).map (Listed.ofAction s.wall config)
  if json then printJson listed
  else if listed.isEmpty then print ["No expiring actions."]
  else print (Table.lines listHeaders (listed.map Listed.row))

end Lapse.Command
