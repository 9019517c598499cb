import Lapse.Action.Basic
import Lapse.Config
import Lapse.Failure

/-!
# Lifetimes and deadlines

An action is due when strictly more than its lifetime has passed since it began.  Instants are
64-bit numbers, and sums and differences that leave their range stop at its ends.
-/

namespace Lapse

/-- The instant nearest to a number. -/
def Instant.clamp (n : Int) : Int64 :=
  Int64.ofInt (max Int64.minValue.toInt (min n Int64.maxValue.toInt))

namespace Action

/-- The lifetime of an action in milliseconds: as agreed, or the configured one for a bounce. -/
def lifetime (a : Action) (config : Config) : Except Failure UInt64 :=
  match a.terms.durationMillis, a.kind with
  | some d, _ => .ok d
  | none, .bounce => .ok config.bounceMillis
  | none, kind => .error (.missingDuration kind a.requestId)

/-- The milliseconds since an action began. -/
def elapsed (a : Action) (now : Int64) : Int64 := Instant.clamp (now.toInt - a.startMillis.toInt)

/-- Whether strictly more than the lifetime has passed. -/
def isDue (a : Action) (now : Int64) (config : Config) : Except Failure Bool := do
  let lifetime ← a.lifetime config
  return decide ((lifetime.toNat : Int) < (a.elapsed now).toInt)

/-- The last instant at which an action is not yet due. -/
def deadline (a : Action) (config : Config) : Except Failure Int64 := do
  let lifetime ← a.lifetime config
  return Instant.clamp (a.startMillis.toInt + min (lifetime.toNat : Int) Int64.maxValue.toInt)

/-- How an action stands at an instant. -/
inductive Standing where
  /-- It has no lifetime. -/
  | malformed (why : Failure)
  | waiting
  | due (lifetime : UInt64)

/-- The standing of an action. -/
def standing (a : Action) (now : Int64) (config : Config) : Standing :=
  match a.lifetime config, a.isDue now config with
  | .ok lifetime, .ok true => .due lifetime
  | .ok _, .ok false => .waiting
  | .error why, _ => .malformed why
  | _, .error why => .malformed why

end Action

/-- A duration as minutes, seconds and milliseconds: minutes of at least two digits, seconds of
two, milliseconds without leading zeros. -/
def Duration.text (millis : UInt64) : String :=
  let n := millis.toNat
  String.ofList <|
    Decimal.padded 2 (n / 60000) ++ ':' :: Decimal.padded 2 (n % 60000 / 1000) ++
      '.' :: Decimal.digits (n % 1000)

/-- What the history says of an action that expired: its kind, how long it lived, and the message
of the user if there is one that says anything. -/
def Action.expiryMessage (a : Action) (lifetime : UInt64) : String :=
  let base := a.kind.title ++ " expired after " ++ Duration.text lifetime
  match a.terms.message with
  | some message => if message.isEmpty then base else base ++ " (" ++ message ++ ")"
  | none => base

end Lapse
