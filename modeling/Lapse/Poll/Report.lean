import Lapse.Action.Kind

/-!
# Reports of a poll

A poll counts, for each kind, what became of the records it looked at.  The counters have thirty-two
bits and begin anew after the greatest number, as they do where overflow is not checked.  A failure of
the store that cuts a kind short is noted with the kind.
-/

namespace Lapse.Poll

/-- What became of the records of one kind. -/
structure Tally where
  kind : Kind
  examined : UInt32 := 0
  notDue : UInt32 := 0
  applied : UInt32 := 0
  skipped : UInt32 := 0
  failed : UInt32 := 0
  missingRequest : UInt32 := 0
  /-- Records without a lifetime. -/
  malformed : UInt32 := 0
  deleted : UInt32 := 0
  /-- The failure that cut the kind short. -/
  error : Option String := none
  deriving DecidableEq

instance : ToData Tally where
  toData t := .record <|
    Data.member "kind" t.kind ++
    Data.member "examined" t.examined ++
    Data.member "not_due" t.notDue ++
    Data.member "applied" t.applied ++
    Data.member "skipped" t.skipped ++
    Data.member "failed" t.failed ++
    Data.member "missing_request" t.missingRequest ++
    Data.member "malformed" t.malformed ++
    Data.member "deleted" t.deleted ++
    Data.memberIfAny "error" t.error

/-- The tallies of one poll, in the order of the kinds. -/
structure Report where
  now : Int64
  kinds : List Tally
  deriving DecidableEq

namespace Report

instance : ToData Report where
  toData r := .record (Data.member "now_millis" r.now ++ Data.member "kinds" r.kinds)

/-- The tally of a kind. -/
def kind? (r : Report) (kind : Kind) : Option Tally := r.kinds.find? fun t => t.kind = kind

/-- How many records were removed, counted as in the tallies. -/
def deleted (r : Report) : UInt32 := r.kinds.foldr (fun t n => t.deleted + n) 0

/-- Whether any kind was cut short. -/
def hasErrors (r : Report) : Bool := r.kinds.any fun t => t.error.isSome

end Report

end Lapse.Poll
