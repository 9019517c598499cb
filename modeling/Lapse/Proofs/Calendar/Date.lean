import Lapse.Calendar
import Mathlib.Algebra.BigOperators.Intervals
import Mathlib.Algebra.BigOperators.Ring.Finset
import Mathlib.Algebra.Order.BigOperators.Group.Finset
import Mathlib.Data.Int.ConditionallyCompleteOrder
import Mathlib.Tactic.IntervalCases
import Mathlib.Tactic.Linarith
import Mathlib.Tactic.Ring

/-!
# The Gregorian calendar

A calendar is told by the lengths of its months alone: a day has as its number the days of the years and
months before it, counted from the first of January 1970.  Every number is that of exactly the date that
is computed for it, without end in both directions.
-/

namespace Lapse.Date

/-! ## The calendar -/

/-- Every fourth year has a leap day, but of those that end a century only every fourth. -/
def IsLeap (year : Int) : Prop := 4 ∣ year ∧ (100 ∣ year → 400 ∣ year)

instance (year : Int) : Decidable (IsLeap year) := inferInstanceAs (Decidable (_ ∧ _))

/-- The days of a month. -/
def monthLength (year : Int) (month : Nat) : Nat :=
  if month = 2 then if IsLeap year then 29 else 28
  else if month = 4 ∨ month = 6 ∨ month = 9 ∨ month = 11 then 30
  else 31

/-- The days of a year. -/
def yearLength (year : Int) : Nat := ∑ month ∈ Finset.Icc 1 12, monthLength year month

/-- The number of the first day of a year: the days of the years from 1970 on to it, or else, to be
taken away, those of the years before 1970 back to it. -/
def yearStart (year : Int) : Int :=
  ∑ i ∈ Finset.range (year - 1970).toNat, (yearLength (1970 + i) : Int) -
    ∑ i ∈ Finset.range (1970 - year).toNat, (yearLength (1969 - i) : Int)

/-- The number of a day. -/
def dayNumber (d : Date) : Int :=
  yearStart d.year + ∑ month ∈ Finset.Ico 1 d.month, (monthLength d.year month : Int) + (d.day - 1)

/-- The month is one of the year, and the day one of the month. -/
structure Valid (d : Date) : Prop where
  month : 1 ≤ d.month ∧ d.month ≤ 12
  day : 1 ≤ d.day ∧ d.day ≤ monthLength d.year d.month

/-! ## Years -/

theorem yearLength_eq (year : Int) : yearLength year = if IsLeap year then 366 else 365 := by
  by_cases h : IsLeap year
  · simp [yearLength, Finset.sum_Icc_succ_top, monthLength, h]
  · simp [yearLength, Finset.sum_Icc_succ_top, monthLength, h]

theorem yearStart_add_one (year : Int) : yearStart (year + 1) = yearStart year + yearLength year := by
  rw [yearStart, yearStart]
  by_cases h : 1970 ≤ year
  · obtain ⟨n, rfl⟩ : ∃ n : Nat, year = 1970 + n := ⟨(year - 1970).toNat, by omega⟩
    have hnext : (1970 + (n : Int) + 1 - 1970).toNat = n + 1 := by omega
    have hthis : (1970 + (n : Int) - 1970).toNat = n := by omega
    have hpast : (1970 - (1970 + (n : Int) + 1)).toNat = 0 ∧
        (1970 - (1970 + (n : Int))).toNat = 0 := by
      omega
    rw [hnext, hthis, hpast.1, hpast.2, Finset.sum_range_succ, Finset.sum_range_zero]
    ring
  · obtain ⟨n, rfl⟩ : ∃ n : Nat, year = 1969 - n := ⟨(1969 - year).toNat, by omega⟩
    have hnext : (1970 - (1969 - (n : Int) + 1)).toNat = n := by omega
    have hthis : (1970 - (1969 - (n : Int))).toNat = n + 1 := by omega
    have hfuture : (1969 - (n : Int) + 1 - 1970).toNat = 0 ∧
        (1969 - (n : Int) - 1970).toNat = 0 := by
      omega
    rw [hnext, hthis, hfuture.1, hfuture.2, Finset.sum_range_succ, Finset.sum_range_zero]
    ring

theorem yearStart_strictMono : StrictMono yearStart := by
  refine strictMono_int_of_lt_succ fun year => ?_
  rw [yearStart_add_one, yearLength_eq]
  split <;> omega

/-- The leap days from the year 1 to a year. -/
def leapDays (year : Int) : Int := year / 4 - year / 100 + year / 400

theorem leapDays_sub_one (year : Int) :
    leapDays year = leapDays (year - 1) + if IsLeap year then 1 else 0 := by
  rw [leapDays, leapDays]
  split
  · next hleap =>
    obtain ⟨hfour, hcentury⟩ := hleap
    by_cases h : 100 ∣ year
    · have hera := hcentury h
      omega
    · omega
  · next hleap =>
    rw [IsLeap, not_and, Classical.not_imp] at hleap
    by_cases hfour : 4 ∣ year
    · obtain ⟨hcentury, hera⟩ := hleap hfour
      omega
    · omega

theorem yearLength_eq_leapDays (year : Int) :
    (yearLength year : Int) = 365 + (leapDays year - leapDays (year - 1)) := by
  rw [yearLength_eq, leapDays_sub_one]
  split <;> simp

/-- **YEARS**: the first day of a year, without a sum. -/
theorem yearStart_eq (year : Int) :
    yearStart year = 365 * (year - 1970) + (leapDays (year - 1) - leapDays 1969) := by
  induction year using Int.inductionOn' (b := 1970) with
  | zero => simp [yearStart]
  | succ year _ ih =>
      rw [yearStart_add_one, ih, yearLength_eq_leapDays, add_sub_cancel_right]
      ring
  | pred year _ ih =>
      have hstep := yearStart_add_one (year - 1)
      rw [sub_add_cancel, ih, yearLength_eq_leapDays] at hstep
      linarith

/-! ## The day of a date -/

theorem sum_monthLength_le (year : Int) {month : Nat} (hmonth : 1 ≤ month ∧ month ≤ 12) :
    ∑ m ∈ Finset.Ico 1 month, monthLength year m + monthLength year month ≤ yearLength year := by
  rw [Finset.sum_Ico_add_eq_sum_Ico_add_one hmonth.1, yearLength]
  refine Finset.sum_le_sum_of_subset fun m hm => ?_
  rw [Finset.mem_Ico] at hm
  rw [Finset.mem_Icc]
  omega

/-- A day is one of its year. -/
theorem Valid.dayNumber_mem {d : Date} (h : d.Valid) :
    yearStart d.year ≤ d.dayNumber ∧ d.dayNumber < yearStart (d.year + 1) := by
  have hmonths := sum_monthLength_le d.year h.month
  have hday := h.day
  rw [dayNumber, yearStart_add_one, ← Nat.cast_sum]
  omega

theorem Valid.year_lt_iff {d : Date} (h : d.Valid) (year : Int) :
    d.year < year ↔ d.dayNumber < yearStart year := by
  obtain ⟨hlow, hhigh⟩ := h.dayNumber_mem
  constructor
  · intro hlt
    exact hhigh.trans_le (yearStart_strictMono.monotone hlt)
  · intro hlt
    exact yearStart_strictMono.lt_iff_lt.mp (hlow.trans_lt hlt)

/-! ## The date of a day

The computation takes years to begin in March, so that a leap day is the last of its year. -/

/-- The number of the first of March of a year. -/
def marchStart (year : Int) : Int := origin + 365 * year + leapDays year

/-- The date of a day of the year that begins in March. -/
def ofMarch (year : Int) (dayOfYear : Nat) : Date :=
  let monthFromMarch := (5 * dayOfYear + 2) / 153
  { year := if monthFromMarch < 10 then year else year + 1
    month := if monthFromMarch < 10 then monthFromMarch + 3 else monthFromMarch - 9
    day := dayOfYear - (153 * monthFromMarch + 2) / 5 + 1 }

/-- The year from March on, and the day of it; a day 366 is the leap day. -/
theorem exists_march (days : Int) :
    ∃ year dayOfYear, ofDays days = ofMarch year dayOfYear ∧ days = marchStart year + dayOfYear ∧
      dayOfYear ≤ 365 ∧ (dayOfYear = 365 → IsLeap (year + 1)) := by
  let fromOrigin := days - origin
  let era := fromOrigin / daysPerEra
  let dayOfEra := (fromOrigin % daysPerEra).toNat
  let century := min 3 (dayOfEra / daysPerCentury)
  let dayOfCentury := dayOfEra - century * daysPerCentury
  let quad := dayOfCentury / daysPerQuad
  let dayOfQuad := dayOfCentury % daysPerQuad
  let yearOfQuad := min 3 (dayOfQuad / 365)
  let dayOfYear := dayOfQuad - yearOfQuad * 365
  -- each of these has one day more than its parts when it is the last, or ends with a leap day
  have hera : days = origin + era * 146097 + dayOfEra ∧ dayOfEra < 146097 := by
    simp only [era, dayOfEra, fromOrigin, daysPerEra]
    omega
  have hcentury : dayOfEra = century * 36524 + dayOfCentury ∧ century ≤ 3 ∧
      (dayOfCentury < 36524 ∨ dayOfCentury = 36524 ∧ century = 3) := by
    simp only [dayOfCentury, century, daysPerCentury]
    omega
  have hquad : dayOfCentury = quad * 1461 + dayOfQuad ∧ dayOfQuad < 1461 ∧ quad ≤ 24 ∧
      (quad = 24 → dayOfQuad = 1460 → dayOfCentury = 36524) := by
    simp only [dayOfQuad, quad, daysPerQuad]
    omega
  have hyear : dayOfQuad = yearOfQuad * 365 + dayOfYear ∧ yearOfQuad ≤ 3 ∧
      (dayOfYear < 365 ∨ dayOfYear = 365 ∧ yearOfQuad = 3) := by
    simp only [dayOfYear, yearOfQuad]
    omega
  refine ⟨era * 400 + (century * 100 + quad * 4 + yearOfQuad : Nat), dayOfYear, rfl, ?_, ?_, ?_⟩
  · rw [marchStart, leapDays]
    omega
  · omega
  · intro hlast
    constructor <;> omega

/-- The days of a year before a month from March on. -/
theorem sum_monthLength_march (year : Int) {m : Nat} (hm : m < 10) :
    (∑ month ∈ Finset.Ico 1 (m + 3), (monthLength year month : Int)) =
      59 + (if IsLeap year then 1 else 0) + (153 * m + 2) / 5 := by
  by_cases hleap : IsLeap year
  · interval_cases m <;> simp [Finset.sum_Ico_succ_top, monthLength, hleap]
  · interval_cases m <;> simp [Finset.sum_Ico_succ_top, monthLength, hleap]

/-- A month from March on ends where the next one begins. -/
theorem monthLength_march (year : Int) {m : Nat} (hm : m < 10) :
    monthLength year (m + 3) = (153 * (m + 1) + 2) / 5 - (153 * m + 2) / 5 := by
  interval_cases m <;> rfl

theorem dayNumber_ofMarch (year : Int) {dayOfYear : Nat} (hle : dayOfYear ≤ 365) :
    (ofMarch year dayOfYear).dayNumber = marchStart year + dayOfYear := by
  have hleap := leapDays_sub_one year
  have hyear := yearStart_eq year
  have hnext := yearStart_eq (year + 1)
  rw [add_sub_cancel_right] at hnext
  have hbase : leapDays 1969 = 477 := rfl
  generalize hm : (5 * dayOfYear + 2) / 153 = m
  rw [ofMarch, hm, dayNumber, marchStart, origin]
  by_cases hmonth : m < 10
  · simp only [if_pos hmonth]
    rw [sum_monthLength_march year hmonth]
    omega
  · simp only [if_neg hmonth]
    -- January and February belong to the next year
    obtain rfl | rfl : m = 10 ∨ m = 11 := by omega
    · rw [show 10 - 9 = 1 from rfl, Finset.Ico_self, Finset.sum_empty]
      omega
    · rw [show 11 - 9 = 1 + 1 from rfl, Nat.Ico_succ_singleton, Finset.sum_singleton,
        show monthLength (year + 1) 1 = 31 from rfl]
      omega

theorem valid_ofMarch (year : Int) {dayOfYear : Nat} (hle : dayOfYear ≤ 365)
    (hlast : dayOfYear = 365 → IsLeap (year + 1)) : (ofMarch year dayOfYear).Valid := by
  generalize hm : (5 * dayOfYear + 2) / 153 = m
  rw [ofMarch, hm]
  by_cases hmonth : m < 10
  · simp only [if_pos hmonth]
    have hname : 1 ≤ m + 3 ∧ m + 3 ≤ 12 := by omega
    refine ⟨hname, Nat.succ_pos _, ?_⟩
    dsimp only
    rw [monthLength_march year hmonth]
    omega
  · simp only [if_neg hmonth]
    obtain rfl | rfl : m = 10 ∨ m = 11 := by omega
    · refine ⟨⟨Nat.le_refl 1, show 1 ≤ 12 by decide⟩, Nat.succ_pos _, ?_⟩
      simp [monthLength]
      omega
    · refine ⟨⟨show 1 ≤ 2 by decide, show 2 ≤ 12 by decide⟩, Nat.succ_pos _, ?_⟩
      by_cases hleap : IsLeap (year + 1)
      · simp [monthLength, hleap]
        omega
      · have hshort : dayOfYear ≠ 365 := fun h => hleap (hlast h)
        simp [monthLength, hleap]
        omega

/-- **DATES**: the date that is computed for a day is one of the calendar, and it is the date of that
day. -/
theorem ofDays_spec (days : Int) : (ofDays days).Valid ∧ (ofDays days).dayNumber = days := by
  obtain ⟨year, dayOfYear, hdate, hdays, hle, hlast⟩ := exists_march days
  rw [hdate]
  exact ⟨valid_ofMarch year hle hlast, (dayNumber_ofMarch year hle).trans hdays.symm⟩

end Lapse.Date
