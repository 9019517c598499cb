import Lapse.Action.Kind

/-!
# Failures

Every way in which an operation can fail, with the message that reports it.  The contents of a file
that cannot be understood, and failures of the file system, carry no message of this library.
-/

namespace Lapse

/-- Why an operation failed. -/
inductive Failure where
  /-- There is no cluster file at this path. -/
  | notInitialized (path : String)
  /-- The cluster holds no such request. -/
  | requestNotFound (requestId : String)
  /-- A request without instances was refused. -/
  | noInstances (requestId : String)
  /-- Only bounces may come without a duration. -/
  | missingDuration (kind : Kind) (requestId : String)
  | unknownKind (word : String)
  | unknownState (word : String)
  /-- The store of expiring actions, or a lock, refused to work. -/
  | store (reason : String)
  /-- The file system refused, or a file is not text. -/
  | files
  /-- A file is not the YAML document it should be. -/
  | yaml
  /-- A record is not the JSON text it should be. -/
  | json
  deriving DecidableEq

namespace Failure

/-- The message that reports a failure. -/
def message : Failure → String
  | .notInitialized path => "not initialized: no cluster state at " ++ path
  | .requestNotFound id => "request not found: " ++ id
  | .noInstances id => "invalid request: request " ++ id ++ " must have at least one instance"
  | .missingDuration kind id =>
    kind.name ++ " action for request " ++ id ++ " has no duration"
  | .unknownKind word => "invalid action kind '" ++ word ++ "'"
  | .unknownState word => "invalid state: " ++ word
  | .store reason => "store error: " ++ reason
  | .files => "input or output failed"
  | .yaml => "malformed YAML"
  | .json => "malformed JSON"

end Failure

end Lapse
