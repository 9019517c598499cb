import Lapse.Proofs.Calendar.Date
import Lapse.Proofs.Text.Numeral

/-!
# Instants as they are shown

An instant whose day is in the years that are shown is written as the date and the time of its second,
and every other instant as its number.  The parts of the text can be told apart, so that two instants
are written alike only when they are the same or are both shown and in the same second.
-/

namespace Lapse

/-! ## Moments -/

/-- A second of a day. -/
structure Moment where
  date : Date
  hour : Nat
  minute : Nat
  second : Nat

/-- The date is one of the calendar, and the time one of the day. -/
structure Moment.Valid (m : Moment) : Prop where
  date : m.date.Valid
  hour : m.hour < 24
  minute : m.minute < 60
  second : m.second < 60

/-- The seconds from the beginning of 1970 to a moment. -/
def Moment.number (m : Moment) : Int :=
  m.date.dayNumber * 86400 + (m.hour * 3600 + m.minute * 60 + m.second : Nat)

/-! ## Texts -/

/-- How a year is written: with four digits, or with a sign and at least four digits, which begin with
a zero only when there are no more. -/
inductive Date.SpellsYear : Int → List Char → Prop
  | plain {n : Nat} {cs} (small : n ≤ 9999) (spells : Decimal.Spells 4 n cs) : SpellsYear n cs
  | later {n places : Nat} {cs} (great : 9999 < n) (spells : Decimal.Spells places n cs)
      (wide : 4 ≤ places) (least : cs.head? = some '0' → places = 4) : SpellsYear n ('+' :: cs)
  | earlier {n places : Nat} {cs} (past : 0 < n) (spells : Decimal.Spells places n cs)
      (wide : 4 ≤ places) (least : cs.head? = some '0' → places = 4) : SpellsYear (-n) ('-' :: cs)

/-- A text gives the parts of a moment, each with its places. -/
def Moment.Spelled (m : Moment) (text : List Char) : Prop :=
  ∃ year month day hour minute second,
    text = year ++ '-' :: month ++ '-' :: day ++ 'T' :: hour ++ ':' :: minute ++ ':' :: second ++
      ['Z'] ∧
    Date.SpellsYear m.date.year year ∧ Decimal.Spells 2 m.date.month month ∧
    Decimal.Spells 2 m.date.day day ∧ Decimal.Spells 2 m.hour hour ∧
    Decimal.Spells 2 m.minute minute ∧ Decimal.Spells 2 m.second second

namespace Date

theorem spellsYear_yearText (year : Int) : SpellsYear year (yearText year) := by
  rw [yearText]
  split
  · next hplain =>
    obtain ⟨n, rfl⟩ := Int.eq_ofNat_of_zero_le hplain.1
    have hn : n < 10 ^ 4 := by omega
    exact .plain (by omega) (Decimal.spells_padded_of_lt (by decide) hn)
  · next hsigned =>
    obtain ⟨hspells, hwide, hleast⟩ := @Decimal.numeral_padded 4 (by decide) year.natAbs
    by_cases hneg : year < 0
    · have hyear : year = -(year.natAbs : Int) := by omega
      rw [if_pos hneg, hyear, Int.natAbs_neg, Int.natAbs_natCast]
      exact .earlier (by omega) hspells hwide hleast
    · have hyear : year = (year.natAbs : Int) := by omega
      rw [if_neg hneg, hyear, Int.natAbs_natCast]
      exact .later (by omega) hspells hwide hleast

theorem SpellsYear.unique {y y' : Int} {cs : List Char} (h : SpellsYear y cs)
    (h' : SpellsYear y' cs) : y = y' := by
  have hsign : ∀ {places n sign rest}, Decimal.Spells places n (sign :: rest) →
      Decimal.isDigit sign = true := fun h => h.digits _ List.mem_cons_self
  cases h with
  | plain _ h =>
      cases h' with
      | plain _ h' => rw [h.unique h']
      | later => exact nomatch hsign h
      | earlier => exact nomatch hsign h
  | later _ h =>
      cases h' with
      | plain _ h' => exact nomatch hsign h'
      | later _ h' => rw [h.unique h']
  | earlier _ h =>
      cases h' with
      | plain _ h' => exact nomatch hsign h'
      | earlier _ h' => rw [h.unique h']

end Date

/-- The parts of the text of a moment are told apart from its end on. -/
theorem Moment.Spelled.unique {m m' : Moment} {text : List Char} (h : m.Spelled text)
    (h' : m'.Spelled text) : m = m' := by
  obtain ⟨year, month, day, hour, minute, second, rfl, hyear, hmonth, hday, hhour, hminute,
    hsecond⟩ := h
  obtain ⟨year', month', day', hour', minute', second', htext, hyear', hmonth', hday', hhour',
    hminute', hsecond'⟩ := h'
  -- every part but the year has two digits, so they come off the end one after the other
  obtain ⟨htext, hs⟩ := hsecond.append_inj hsecond' (List.append_cancel_right htext)
  obtain ⟨htext, hmi⟩ := hminute.append_inj hminute' htext
  obtain ⟨htext, hh⟩ := hhour.append_inj hhour' htext
  obtain ⟨htext, hd⟩ := hday.append_inj hday' htext
  obtain ⟨rfl, hmo⟩ := hmonth.append_inj hmonth' htext
  have hy := hyear.unique hyear'
  obtain ⟨⟨_, _, _⟩, _, _, _⟩ := m
  obtain ⟨⟨_, _, _⟩, _, _, _⟩ := m'
  simp_all

/-! ## Instants -/

namespace Instant

/-- The second in which an instant is. -/
def second (millis : Int64) : Int := millis.toInt / 1000

/-- The day of an instant is in the years that are shown. -/
def Shown (millis : Int64) : Prop :=
  Date.dayNumber ⟨Date.firstYear, 1, 1⟩ ≤ second millis / 86400 ∧
    second millis / 86400 ≤ Date.dayNumber ⟨Date.lastYear, 12, 31⟩

instance (millis : Int64) : Decidable (Shown millis) := inferInstanceAs (Decidable (_ ∧ _))

/-- The moment of a second. -/
def moment (second : Int) : Moment where
  date := Date.ofDays (second / 86400)
  hour := (second % 86400).toNat / 3600
  minute := (second % 86400).toNat / 60 % 60
  second := (second % 86400).toNat % 60

theorem valid_moment (second : Int) : (moment second).Valid where
  date := (Date.ofDays_spec _).1
  hour := by
    show (second % 86400).toNat / 3600 < 24
    omega
  minute := Nat.mod_lt _ (by decide)
  second := Nat.mod_lt _ (by decide)

theorem number_moment (second : Int) : (moment second).number = second := by
  rw [Moment.number, moment]
  dsimp only
  rw [(Date.ofDays_spec _).2]
  omega

/-- The last day that is shown is the one before the first day of the year after it. -/
theorem dayNumber_lastDay (year : Int) :
    Date.dayNumber ⟨year, 12, 31⟩ + 1 = Date.yearStart (year + 1) := by
  rw [Date.yearStart_add_one, Date.yearLength_eq, Date.dayNumber]
  by_cases h : Date.IsLeap year
  · simp [Finset.sum_Ico_succ_top, Date.monthLength, h]
    omega
  · simp [Finset.sum_Ico_succ_top, Date.monthLength, h]
    omega

/-- The years of the dates that are computed tell which instants are shown. -/
theorem shown_iff (millis : Int64) :
    Shown millis ↔ Date.firstYear ≤ (moment (second millis)).date.year ∧
      (moment (second millis)).date.year ≤ Date.lastYear := by
  obtain ⟨hvalid, hnumber⟩ := Date.ofDays_spec (second millis / 86400)
  have hfirst := hvalid.year_lt_iff Date.firstYear
  have hlast := hvalid.year_lt_iff (Date.lastYear + 1)
  rw [hnumber] at hfirst hlast
  have hday : Date.dayNumber ⟨Date.firstYear, 1, 1⟩ = Date.yearStart Date.firstYear := by
    simp [Date.dayNumber]
  have hend := dayNumber_lastDay Date.lastYear
  rw [Shown, hday, moment]
  dsimp only
  omega

/-- The text of an instant that is shown, and of one that is not. -/
theorem toList_text (millis : Int64) : (text millis).toList =
    if Shown millis then
      (moment (second millis)).date.text ++ 'T' :: Clock.text (second millis % 86400).toNat ++ ['Z']
    else Decimal.ofInt millis.toInt := by
  rw [text]
  simp only [shown_iff]
  exact String.toList_ofList

theorem spelled_text {millis : Int64} (h : Shown millis) :
    (moment (second millis)).Spelled (text millis).toList := by
  have hvalid := valid_moment (second millis)
  have htwo : ∀ {n}, n < 100 → Decimal.Spells 2 n (Decimal.padded 2 n) := fun hn =>
    Decimal.spells_padded_of_lt (by decide) hn
  have hmonth := hvalid.date.month
  have hday : (moment (second millis)).date.day < 100 := by
    have hlength := hvalid.date.day.2
    rw [Date.monthLength] at hlength
    split at hlength
    · split at hlength <;> omega
    · split at hlength <;> omega
  have hhour := hvalid.hour
  refine ⟨_, _, _, _, _, _, ?_, Date.spellsYear_yearText _, htwo (by omega), htwo hday,
    htwo (by omega), htwo (hvalid.minute.trans (by decide)), htwo (hvalid.second.trans (by decide))⟩
  rw [toList_text, if_pos h, Date.text, Clock.text]
  simp [moment]

theorem text_of_not_shown {millis : Int64} (h : ¬Shown millis) :
    text millis = toString millis.toInt := by
  rw [← Decimal.ofList_ofInt, ← String.toList_inj, toList_text, if_neg h, String.toList_ofList]

/-- Only the text of an instant that is shown has letters. -/
theorem letter_mem_text_iff (millis : Int64) : 'Z' ∈ (text millis).toList ↔ Shown millis := by
  have hnumber : 'Z' ∉ Decimal.ofInt millis.toInt := by
    have hdigits : 'Z' ∉ Decimal.digits millis.toInt.natAbs :=
      fun hmem => nomatch Decimal.isDigit_of_mem_digits hmem
    rw [Decimal.ofInt]
    split
    · exact List.not_mem_cons_of_ne_of_not_mem (by decide) hdigits
    · exact hdigits
  rw [toList_text]
  split
  · next h => exact iff_of_true (List.mem_append_right _ List.mem_cons_self) h
  · next h => exact iff_of_false hnumber h

/-- Instants are written alike when both are shown, and in the same second, or when they are the
same. -/
theorem text_eq_iff (millis other : Int64) : text millis = text other ↔
    millis = other ∨ Shown millis ∧ Shown other ∧ second millis = second other := by
  constructor
  · intro htext
    -- one text has letters or none, so the two instants are both shown or both not
    have hshown := letter_mem_text_iff millis
    rw [htext, letter_mem_text_iff other] at hshown
    by_cases h : Shown millis
    · have hspelled := spelled_text h
      rw [htext] at hspelled
      have hmoment := hspelled.unique (spelled_text (hshown.mpr h))
      have hnumber := congrArg Moment.number hmoment
      rw [number_moment, number_moment] at hnumber
      exact .inr ⟨h, hshown.mpr h, hnumber⟩
    · have hlist := congrArg String.toList htext
      rw [toList_text, toList_text, if_neg h, if_neg fun hother => h (hshown.mp hother)] at hlist
      exact .inl (Int64.toInt_inj.mp (Decimal.ofInt_injective hlist))
  · rintro (rfl | ⟨h, hother, hsecond⟩)
    · rfl
    · rw [← String.toList_inj, toList_text, toList_text, if_pos h, if_pos hother, hsecond]

/-- **INSTANTS**: an instant that is shown is written as the moment of its second, and another one as
its number; two are written alike only if they are the same, or shown and in the same second. -/
theorem text_faithful (millis : Int64) :
    (if Shown millis then
      ∃ m : Moment, m.Valid ∧ m.number = second millis ∧ m.Spelled (text millis).toList
    else text millis = toString millis.toInt) ∧
    ∀ other : Int64, text millis = text other ↔
      millis = other ∨ Shown millis ∧ Shown other ∧ second millis = second other := by
  refine ⟨?_, text_eq_iff millis⟩
  split
  · next h => exact ⟨_, valid_moment _, number_moment _, spelled_text h⟩
  · next h => exact text_of_not_shown h

end Instant

end Lapse
