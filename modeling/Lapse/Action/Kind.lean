import Lapse.Cases

/-!
# Kinds of expiring actions

A user action that ends by itself is one of four kinds.  The order of the kinds is the order in
which a poll visits them, and also the byte order of their names.
-/

namespace Lapse

/-- What a user did for a limited time. -/
inductive Kind where
  | bounce
  | pause
  | scale
  | skipHealthchecks
  deriving DecidableEq

namespace Kind

/-- Every kind, in the order of a poll. -/
def all : List Kind := [.bounce, .pause, .scale, .skipHealthchecks]

/-- The name in records and keys. -/
def name : Kind → String
  | .bounce => "bounce"
  | .pause => "pause"
  | .scale => "scale"
  | .skipHealthchecks => "skip_healthchecks"

/-- The name in messages to people. -/
def title : Kind → String
  | .bounce => "Bounce"
  | .pause => "Pause"
  | .scale => "Scale"
  | .skipHealthchecks => "Skip healthchecks"

instance : Cases Kind := ⟨all, name⟩

/-- The kind that an operator names, a hyphen allowed in place of the underscore. -/
def ofWord? (s : String) : Option Kind :=
  if s = "skip-healthchecks" then some .skipHealthchecks else Cases.ofName? s

end Kind

end Lapse
