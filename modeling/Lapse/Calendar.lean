import Lapse.Text.Decimal

/-!
# Instants as dates

Instants count milliseconds since the beginning of 1970 in Greenwich.  They are shown to the second
as a date of the Gregorian calendar, extended without end in both directions, with year 0 before
year 1.  Instants outside the years -262143 to 262142 are shown as numbers.
-/

namespace Lapse

/-- A day of the Gregorian calendar. -/
structure Date where
  year : Int
  month : Nat
  day : Nat
  deriving DecidableEq

namespace Date

/-- Days in 400 years. -/
def daysPerEra : Nat := 146097

/-- Days in 100 years, the last of which need not be a leap year. -/
def daysPerCentury : Nat := 36524

/-- Days in four years. -/
def daysPerQuad : Nat := 1461

/-- The first of March of the year 0, counted from the first of January 1970. -/
def origin : Int := -719468

/-- The date of a day, counted from the first of January 1970.  Years are taken to begin in March,
so that a leap day is the last day of its year, of its four years, and of its 400 years; the months
from March on take turns of 153 days in five. -/
def ofDays (days : Int) : Date :=
  let fromOrigin := days - origin
  let era := fromOrigin / daysPerEra
  let dayOfEra := (fromOrigin % daysPerEra).toNat
  let century := min 3 (dayOfEra / daysPerCentury)
  let dayOfCentury := dayOfEra - century * daysPerCentury
  let quad := dayOfCentury / daysPerQuad
  let dayOfQuad := dayOfCentury % daysPerQuad
  let yearOfQuad := min 3 (dayOfQuad / 365)
  let dayOfYear := dayOfQuad - yearOfQuad * 365
  let monthFromMarch := (5 * dayOfYear + 2) / 153
  let year : Int := era * 400 + (century * 100 + quad * 4 + yearOfQuad : Nat)
  { year := if monthFromMarch < 10 then year else year + 1
    month := if monthFromMarch < 10 then monthFromMarch + 3 else monthFromMarch - 9
    day := dayOfYear - (153 * monthFromMarch + 2) / 5 + 1 }

/-- The first year that is shown as a date. -/
def firstYear : Int := -262143

/-- The last year that is shown as a date. -/
def lastYear : Int := 262142

/-- A year: four digits, or a sign and at least four digits. -/
def yearText (year : Int) : List Char :=
  if 0 ≤ year ∧ year ≤ 9999 then Decimal.padded 4 year.toNat
  else (if year < 0 then '-' else '+') :: Decimal.padded 4 year.natAbs

/-- A date, parts divided by hyphens. -/
def text (d : Date) : List Char :=
  yearText d.year ++ '-' :: Decimal.padded 2 d.month ++ '-' :: Decimal.padded 2 d.day

end Date

/-- A time of day, given in seconds. -/
def Clock.text (seconds : Nat) : List Char :=
  Decimal.padded 2 (seconds / 3600) ++ ':' :: Decimal.padded 2 (seconds / 60 % 60) ++
    ':' :: Decimal.padded 2 (seconds % 60)

/-- An instant as it is shown. -/
def Instant.text (millis : Int64) : String :=
  let seconds := millis.toInt / 1000
  let date := Date.ofDays (seconds / 86400)
  String.ofList <|
    if Date.firstYear ≤ date.year ∧ date.year ≤ Date.lastYear then
      date.text ++ 'T' :: Clock.text (seconds % 86400).toNat ++ ['Z']
    else Decimal.ofInt millis.toInt

end Lapse
