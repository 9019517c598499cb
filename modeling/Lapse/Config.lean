import Lapse.Cases

/-!
# Poll settings

The settings are the period of the poll loop and the lifetime of a bounce that was started without
one.  A setting that is not given has a default of its own.
-/

namespace Lapse

/-- Settings of the poll. -/
structure Config where
  /-- The period of the poll loop; zero turns it off. -/
  everyMillis : UInt64 := 45000
  /-- The lifetime of a bounce without a duration of its own. -/
  bounceMinutes : UInt64 := 60
  deriving DecidableEq

namespace Config

instance : ToData Config where
  toData c := .record <|
    Data.member "check_expiring_user_action_every_millis" c.everyMillis ++
    Data.member "default_bounce_expiration_minutes" c.bounceMinutes

instance : Readable Config where
  read v := do
    let fs ← Source.fields?
      ["check_expiring_user_action_every_millis", "default_bounce_expiration_minutes"] v
    return {
      everyMillis := ← fs.orElse 0 "check_expiring_user_action_every_millis" 45000
      bounceMinutes := ← fs.orElse 1 "default_bounce_expiration_minutes" 60 }

/-- The lifetime of a bounce without a duration, in milliseconds; the greatest number if it is
greater. -/
def bounceMillis (c : Config) : UInt64 :=
  UInt64.ofNat (min (c.bounceMinutes.toNat * 60000) (UInt64.size - 1))

/-- How serious a finding about the settings is. -/
inductive Severity where
  | warning
  | error
  deriving DecidableEq

instance : Cases Severity where
  all := [.warning, .error]
  name
    | .warning => "warning"
    | .error => "error"

/-- A finding about the settings. -/
structure Finding where
  severity : Severity
  message : String
  deriving DecidableEq

instance : ToData Finding where
  toData f := .record (Data.member "level" f.severity ++ Data.member "message" f.message)

instance : Readable Finding where
  read v := do
    let fs ← Source.fields? ["level", "message"] v
    return { severity := ← fs.required 0 "level", message := ← fs.required 1 "message" }

/-- What is wrong with the settings: a loop that never polls, bounces that end at once. -/
def findings (c : Config) : List Finding :=
  (if c.everyMillis = 0 then
    [⟨.error, "check_expiring_user_action_every_millis must be greater than zero"⟩] else []) ++
  (if c.bounceMinutes = 0 then
    [⟨.warning, "default_bounce_expiration_minutes is 0: bounces without a duration " ++
      "are cancelled on the next poll"⟩] else [])

end Config

end Lapse
