import Lapse.Action.Kind
import Lapse.Json.Value
import Lapse.Json.Text

/-!
# Expiring actions

An expiring action records what a user did for a limited time, on what terms, and what it takes to
undo it.  The store keeps the JSON text of an action.
-/

namespace Lapse

/-- The terms on which a user acted. -/
structure Action.Terms where
  durationMillis : Option UInt64 := none
  message : Option String := none
  deriving DecidableEq

/-- What it takes to undo an action. -/
inductive Action.Undo where
  /-- A bounce, and the deploy it was started against. -/
  | bounce (deployId : String)
  | pause
  /-- A scale, and the instance count before it. -/
  | scale (instances : UInt32)
  /-- A change of the flag, and the flag before it. -/
  | skipHealthchecks (flag : Option Bool)
  deriving DecidableEq

/-- A user action that ends by itself. -/
structure Action where
  requestId : String
  /-- The mark of this action on the cleanups and pending requests that it caused. -/
  actionId : String
  user : String
  /-- When the user acted, in milliseconds since 1970. -/
  startMillis : Int64
  terms : Action.Terms
  undo : Action.Undo
  deriving DecidableEq

namespace Action

instance : ToData Terms where
  toData t := .record <|
    Data.memberIfAny "duration_millis" t.durationMillis ++ Data.memberIfAny "message" t.message

instance : Readable Terms where
  read v := do
    let fs ← Source.fields? ["duration_millis", "message"] v
    return {
      durationMillis := ← fs.orElse 0 "duration_millis" none
      message := ← fs.orElse 1 "message" none }

namespace Undo

/-- The kind of action that is undone. -/
def kind : Undo → Kind
  | .bounce _ => .bounce
  | .pause => .pause
  | .scale _ => .scale
  | .skipHealthchecks _ => .skipHealthchecks

/-- The members beside the name of the kind. -/
def members : Undo → List (String × Data)
  | .bounce deployId => Data.member "deploy_id" deployId
  | .pause => []
  | .scale instances => Data.member "revert_to_instances" instances
  | .skipHealthchecks flag => Data.member "revert_to_skip_healthchecks" flag

instance : ToData Undo where
  toData u := .record (Data.member "kind" u.kind ++ u.members)

/-- Read a value that names the kind and gives the fields of that kind. -/
def ofJson (value : Json) : Option Undo := do
  let (word, contents) ← value.tagged? "kind"
  match ← Cases.ofName? word with
  | Kind.bounce =>
    let fs ← Json.fields? ["deploy_id"] contents
    return .bounce (← fs.required 0 "deploy_id")
  | Kind.pause =>
    match contents with
    | .array (_ :: _) => none
    | _ => return .pause
  | Kind.scale =>
    let fs ← Json.fields? ["revert_to_instances"] contents
    return .scale (← fs.required 0 "revert_to_instances")
  | Kind.skipHealthchecks =>
    let fs ← Json.fields? ["revert_to_skip_healthchecks"] contents
    return .skipHealthchecks (← fs.orElse 0 "revert_to_skip_healthchecks" none)

end Undo

/-- The kind of an action. -/
def kind (a : Action) : Kind := a.undo.kind

instance : ToData Action where
  toData a := .record <|
    Data.member "request_id" a.requestId ++
    Data.member "action_id" a.actionId ++
    Data.member "user" a.user ++
    Data.member "start_millis" a.startMillis ++
    Data.member "api_request" a.terms ++
    Data.member "payload" a.undo

/-- Read an action from a JSON value. -/
def ofJson (value : Json) : Option Action := do
  let fs ← Json.fields?
    ["request_id", "action_id", "user", "start_millis", "api_request", "payload"] value
  return {
    requestId := ← fs.required 0 "request_id"
    actionId := ← fs.required 1 "action_id"
    user := ← fs.required 2 "user"
    startMillis := ← fs.required 3 "start_millis"
    terms := ← fs.required 4 "api_request"
    undo := ← (fs.at? 5 "payload").bind Undo.ofJson }

/-- The bytes under which an action is stored. -/
def encode (a : Action) : Bytes := Json.encode a

/-- The action that a stored record holds, if it still reads as one. -/
def decode (bytes : Bytes) : Option Action := (Json.parse bytes).bind ofJson

/-- An action named in messages. -/
def describe (a : Action) : String :=
  "expiring " ++ a.kind.name ++ " of " ++ a.requestId ++ " by " ++ a.user ++ " (action " ++
    a.actionId ++ ")"

end Action

end Lapse
