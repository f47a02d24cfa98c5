import MeshCore.Library.Calendar
import MeshCore.Room.Commands

/-
  The date of a day, in the machine's numbers: the clock of
  a reply names the day it is, and every day has its date.

  `Room.civilFromDays` has the days since the epoch alone,
  which are those a clock can show; here are the days before
  it as well.

  Key definitions include:
    * `Dates.civilFromDays`

  Key facts include:
    * `Dates.yearOfEra_eq`, `Dates.dayOfYear_eq`
    * `Dates.civilFromDays_of_falls`
    * `Dates.room_civilFromDays`, `Dates.room_civilFromDays_eq`
    * `Dates.dates_are_right`
-/

namespace MeshCore

open Calendar

namespace Dates

------------------------------------------------------------
-- The Code
------------------------------------------------------------

def yearOfEra (dayOfEra : UInt32) : UInt32 :=
  (dayOfEra - dayOfEra / 1460 + dayOfEra / 36524 -
    dayOfEra / 146096) / 365

def dayOfYear (dayOfEra yearOfEra : UInt32) : UInt32 :=
  dayOfEra -
    (365 * yearOfEra + yearOfEra / 4 - yearOfEra / 100)

def monthPrime (dayOfYear : UInt32) : UInt32 :=
  (5 * dayOfYear + 2) / 153

/- The year, the month and the day. -/
def civilFromDays (days : Int64) :
    Int32 × UInt32 × UInt32 :=
  let days := days + 719468
  let era :=
    (if 0 ≤ days then days else days - 146096) / 146097
  let dayOfEra :=
    UInt32.ofInt (days - era * 146097).toInt
  let yearOfEra := yearOfEra dayOfEra
  let dayOfYear := dayOfYear dayOfEra yearOfEra
  let monthPrime := monthPrime dayOfYear
  let day := dayOfYear - (153 * monthPrime + 2) / 5 + 1
  -- the nine is taken off by wrapping around
  let month :=
    monthPrime + (if monthPrime < 10 then 3 else -9)
  let year :=
    Int64.ofNat yearOfEra.toNat + era * 400 +
      (if month ≤ 2 then 1 else 0)
  (year.toInt32, month, day)

------------------------------------------------------------
-- Numbers That Fit
------------------------------------------------------------

theorem toNat_add_of_lt
    {a b : UInt32}
    (hFits : a.toNat + b.toNat < 2 ^ 32) :
    (a + b).toNat = a.toNat + b.toNat := by
  rw [UInt32.toNat_add, Nat.mod_eq_of_lt hFits]

theorem toNat_mul_of_lt
    {a b : UInt32}
    (hFits : a.toNat * b.toNat < 2 ^ 32) :
    (a * b).toNat = a.toNat * b.toNat := by
  rw [UInt32.toNat_mul, Nat.mod_eq_of_lt hFits]

theorem toNat_sub_of_le
    {a b : UInt32}
    (hFits : b.toNat ≤ a.toNat) :
    (a - b).toNat = a.toNat - b.toNat :=
  UInt32.toNat_sub_of_le a b
    (UInt32.le_iff_toNat_le.mpr hFits)

/- A number that 64 bits hold with its sign. -/
def Fits64 (n : Int) : Prop :=
  -2 ^ 63 ≤ n ∧ n < 2 ^ 63

theorem Fits64.bmod_eq
    {n : Int}
    (hFits : Fits64 n) :
    n.bmod (2 ^ 64) = n := by
  unfold Fits64 at hFits
  apply Int.bmod_eq_of_le <;> omega

theorem toInt_add_of_fits
    {a b : Int64}
    (hFits : Fits64 (a.toInt + b.toInt)) :
    (a + b).toInt = a.toInt + b.toInt := by
  rw [Int64.toInt_add, hFits.bmod_eq]

theorem toInt_sub_of_fits
    {a b : Int64}
    (hFits : Fits64 (a.toInt - b.toInt)) :
    (a - b).toInt = a.toInt - b.toInt := by
  rw [Int64.toInt_sub, hFits.bmod_eq]

theorem toInt_mul_of_fits
    {a b : Int64}
    (hFits : Fits64 (a.toInt * b.toInt)) :
    (a * b).toInt = a.toInt * b.toInt := by
  rw [Int64.toInt_mul, hFits.bmod_eq]

------------------------------------------------------------
-- In an Era
------------------------------------------------------------

section Era

variable {n era : Int}
variable {century fours year day d : Nat}

/-
  The divisions of the year formula. It takes the leap days
  of four years off a day too early only where the year has
  a day to spare.
-/
theorem yearOfEra_eq
    (hFalls : Falls n era century fours year day)
    (hDay :
      d =
        36524 * century + 1461 * fours + 365 * year + day) :
    (d - d / 1460 + d / 36524 - d / 146096) / 365 =
      100 * century + 4 * fours + year := by
  rcases hFalls with ⟨_, hCentury, hFours, hYear, hLast⟩
  have hLeapDays :
      d / 1460 = 25 * century + fours ∧ day ≤ 364 ∨
        d / 1460 = 25 * century + fours + 1 ∧ 1 ≤ day := by
    omega
  have hRest :
      1461 * fours + 365 * year + day < 36524 ∨
        century = 3 ∧
          1461 * fours + 365 * year + day = 36524 := by
    omega
  -- the last day of an era is counted in a fifth century
  have hCenturies : d / 36524 = century + d / 146096 := by
    rcases hRest with hRest | ⟨rfl, hRest⟩
    · have hHere : d / 36524 = century := by omega
      have hBefore : d / 146096 = 0 := by omega
      omega
    · have hEnd : d = 146096 := by omega
      subst hEnd
      rfl
  have hOnce : d / 146096 ≤ 1 := by omega
  omega

theorem dayOfYear_eq
    (hFalls : Falls n era century fours year day)
    (hDay :
      d =
        36524 * century + 1461 * fours + 365 * year + day)
    {y : Nat}
    (hYear : y = 100 * century + 4 * fours + year) :
    365 * y + y / 4 - y / 100 ≤ d ∧
      d - (365 * y + y / 4 - y / 100) = day := by
  rcases hFalls with ⟨_, hCentury, hFours, hYearLe, hLast⟩
  have hFourth : y / 4 = 25 * century + fours := by omega
  have hHundredth : y / 100 = century := by omega
  omega

/- The year's formula does not wrap around. -/
theorem toNat_yearOfEra
    (hFalls : Falls n era century fours year day)
    {dayOfEra : UInt32}
    (hDay :
      dayOfEra.toNat =
        36524 * century + 1461 * fours + 365 * year + day) :
    (yearOfEra dayOfEra).toNat =
      100 * century + 4 * fours + year := by
  have hYear := yearOfEra_eq hFalls hDay
  have hSmall : dayOfEra.toNat < 146097 := by
    rcases hFalls with ⟨_, hCentury, hFours, hYearLe, hLast⟩
    omega
  have hLess :
      (dayOfEra - dayOfEra / 1460).toNat =
        dayOfEra.toNat - dayOfEra.toNat / 1460 :=
    toNat_sub_of_le (Nat.div_le_self _ _)
  have hMore :
      (dayOfEra - dayOfEra / 1460 +
          dayOfEra / 36524).toNat =
        dayOfEra.toNat - dayOfEra.toNat / 1460 +
          dayOfEra.toNat / 36524 := by
    rw [toNat_add_of_lt, hLess]
    · rfl
    · rw [hLess]
      change _ + dayOfEra.toNat / 36524 < _
      omega
  rw [yearOfEra, UInt32.toNat_div, toNat_sub_of_le, hMore]
  · exact hYear
  · rw [hMore]
    change dayOfEra.toNat / 146096 ≤ _
    omega

theorem toNat_dayOfYear
    (hFalls : Falls n era century fours year day)
    {dayOfEra yearOfEra : UInt32}
    (hDay :
      dayOfEra.toNat =
        36524 * century + 1461 * fours + 365 * year + day)
    (hYear :
      yearOfEra.toNat = 100 * century + 4 * fours + year) :
    (dayOfYear dayOfEra yearOfEra).toNat = day := by
  have hRest := dayOfYear_eq hFalls hDay hYear
  have hSmall : yearOfEra.toNat < 400 := by
    rcases hFalls with ⟨_, hCentury, hFours, hYearLe, hLast⟩
    omega
  have hLong :
      (365 * yearOfEra).toNat = 365 * yearOfEra.toNat := by
    apply toNat_mul_of_lt
    change 365 * yearOfEra.toNat < _
    omega
  have hLeap :
      (365 * yearOfEra + yearOfEra / 4).toNat =
        365 * yearOfEra.toNat + yearOfEra.toNat / 4 := by
    rw [toNat_add_of_lt, hLong]
    · rfl
    · rw [hLong]
      change _ + yearOfEra.toNat / 4 < _
      omega
  have hBefore :
      (365 * yearOfEra + yearOfEra / 4 -
          yearOfEra / 100).toNat =
        365 * yearOfEra.toNat + yearOfEra.toNat / 4 -
          yearOfEra.toNat / 100 := by
    rw [toNat_sub_of_le, hLeap]
    · rfl
    · rw [hLeap]
      change yearOfEra.toNat / 100 ≤ _
      omega
  rw [dayOfYear, toNat_sub_of_le, hBefore]
  · exact hRest.2
  · rw [hBefore]
    exact hRest.1

/- The month and the day, of a day of its year. -/
theorem toNat_monthPrime
    {dayOfYear : UInt32}
    (hDay : dayOfYear.toNat ≤ 365) :
    (monthPrime dayOfYear).toNat =
      (5 * dayOfYear.toNat + 2) / 153 := by
  have hFive :
      (5 * dayOfYear).toNat = 5 * dayOfYear.toNat := by
    apply toNat_mul_of_lt
    change 5 * dayOfYear.toNat < _
    omega
  rw [monthPrime, UInt32.toNat_div, toNat_add_of_lt, hFive]
  · rfl
  · rw [hFive]
    change _ + 2 < _
    omega

theorem toNat_day
    {dayOfYear monthPrime : UInt32}
    (hDay : dayOfYear.toNat ≤ 365)
    (hMonth :
      monthPrime.toNat =
        (5 * dayOfYear.toNat + 2) / 153) :
    (dayOfYear - (153 * monthPrime + 2) / 5 + 1).toNat =
      dayOfYear.toNat - (153 * monthPrime.toNat + 2) / 5 +
        1 := by
  have hLong :
      (153 * monthPrime).toNat = 153 * monthPrime.toNat := by
    apply toNat_mul_of_lt
    change 153 * monthPrime.toNat < _
    omega
  have hStart :
      ((153 * monthPrime + 2) / 5).toNat =
        (153 * monthPrime.toNat + 2) / 5 := by
    rw [UInt32.toNat_div, toNat_add_of_lt, hLong]
    · rfl
    · rw [hLong]
      change _ + 2 < _
      omega
  have hInside :
      (dayOfYear - (153 * monthPrime + 2) / 5).toNat =
        dayOfYear.toNat -
          (153 * monthPrime.toNat + 2) / 5 := by
    rw [toNat_sub_of_le, hStart]
    rw [hStart]
    omega
  rw [toNat_add_of_lt, hInside]
  · rfl
  · rw [hInside]
    change _ + 1 < _
    omega

theorem toNat_month
    {monthPrime : UInt32}
    (hMonth : monthPrime.toNat ≤ 11) :
    (monthPrime +
          (if monthPrime < 10 then 3 else -9)).toNat =
      if monthPrime.toNat < 10 then monthPrime.toNat + 3
      else monthPrime.toNat - 9 := by
  have hEarly :
      monthPrime < 10 ↔ monthPrime.toNat < 10 :=
    UInt32.lt_iff_toNat_lt
  by_cases hMarch : monthPrime.toNat < 10
  · rw [if_pos (hEarly.mpr hMarch), if_pos hMarch]
    apply toNat_add_of_lt
    change _ + 3 < _
    omega
  · have hNine : (-9 : UInt32).toNat = 2 ^ 32 - 9 := by
      decide
    rw [if_neg (mt hEarly.mp hMarch), if_neg hMarch,
      UInt32.toNat_add, hNine]
    omega

end Era

------------------------------------------------------------
-- Every Day
------------------------------------------------------------

/- The era is rounded down on both sides of the year zero. -/
theorem toInt_era
    {days : Int64}
    (hFits : Fits64 (days.toInt - 146096)) :
    ((if 0 ≤ days then days else days - 146096) /
          146097).toInt =
      days.toInt / 146097 := by
  have hOne : (146097 : Int64).toInt = 146097 := by decide
  have hBack : (146096 : Int64).toInt = 146096 := by decide
  have hSign : 0 ≤ days ↔ 0 ≤ days.toInt :=
    Int64.le_iff_toInt_le
  rw [Int64.toInt_div_of_ne_right _ _ (by decide), hOne]
  by_cases hPos : 0 ≤ days.toInt
  · rw [if_pos (hSign.mpr hPos),
      Int.tdiv_eq_ediv_of_nonneg hPos]
  · rw [if_neg (mt hSign.mp hPos), toInt_sub_of_fits, hBack]
    · -- toward zero, of the number with the other sign
      have hOther :
          days.toInt - 146096 = -(146096 - days.toInt) := by
        omega
      rw [hOther, Int.neg_tdiv,
        Int.tdiv_eq_ediv_of_nonneg (by omega)]
      omega
    · rw [hBack]
      exact hFits

/- A day that is not at one of the ends of 64 bits. -/
def Near (n : Int) : Prop :=
  -2 ^ 42 ≤ n ∧ n < 2 ^ 42

theorem toInt_shift
    {days : Int64}
    (hNear : Near days.toInt) :
    (days + 719468).toInt = days.toInt + 719468 := by
  have hZero : (719468 : Int64).toInt = 719468 := by decide
  unfold Near at hNear
  rw [toInt_add_of_fits, hZero]
  rw [hZero]
  unfold Fits64
  omega

theorem toNat_dayOfEra
    {z era : Int64}
    (hSmall : Near (z.toInt - 719468))
    (hEra : era.toInt = z.toInt / 146097) :
    ((UInt32.ofInt (z - era * 146097).toInt).toNat : Int) =
      z.toInt % 146097 := by
  have hOne : (146097 : Int64).toInt = 146097 := by decide
  unfold Near at hSmall
  have hProduct :
      (era * 146097).toInt =
        z.toInt / 146097 * 146097 := by
    rw [toInt_mul_of_fits, hEra, hOne]
    rw [hEra, hOne]
    unfold Fits64
    omega
  have hRest :
      (z - era * 146097).toInt = z.toInt % 146097 := by
    rw [toInt_sub_of_fits, hProduct]
    · omega
    · rw [hProduct]
      unfold Fits64
      omega
  rw [hRest, UInt32.ofInt, UInt32.toNat_ofNat']
  omega

/- The year of the era, the era, and what a month adds. -/
theorem toInt_year
    {yearOfEra : UInt32} {era : Int64} {one : Int64}
    (hOne : 0 ≤ one.toInt ∧ one.toInt ≤ 1)
    (hEra : -2 ^ 42 ≤ era.toInt ∧ era.toInt < 2 ^ 42) :
    (Int64.ofNat yearOfEra.toNat + era * 400 + one).toInt =
      yearOfEra.toNat + era.toInt * 400 + one.toInt := by
  have hLess := yearOfEra.toNat_lt
  have hWide :
      (Int64.ofNat yearOfEra.toNat).toInt =
        yearOfEra.toNat :=
    Int64.toInt_ofNat_of_lt (by omega)
  have hFour : (400 : Int64).toInt = 400 := by decide
  have hProduct :
      (era * 400).toInt = era.toInt * 400 := by
    rw [toInt_mul_of_fits, hFour]
    rw [hFour]
    unfold Fits64
    omega
  have hSum :
      (Int64.ofNat yearOfEra.toNat + era * 400).toInt =
        yearOfEra.toNat + era.toInt * 400 := by
    rw [toInt_add_of_fits, hWide, hProduct]
    rw [hWide, hProduct]
    unfold Fits64
    omega
  rw [toInt_add_of_fits, hSum]
  rw [hSum]
  unfold Fits64
  omega

/-
  What the code computes for a day: nothing wraps around but
  what is meant to, and the year is cut to an `int`.
-/
theorem civilFromDays_of_dayNumber
    {days : Int64}
    {date : Date}
    (hNear : Near days.toInt)
    (hDate : date.dayNumber = days.toInt) :
    (civilFromDays days).1.toInt =
        date.year.bmod (2 ^ 32) ∧
      (civilFromDays days).2.1.toNat = date.month ∧
      (civilFromDays days).2.2.toNat = date.day := by
  rcases exists_falls (days.toInt + 719468) with
    ⟨era, century, fours, year, day, hFalls⟩
  rcases hFalls.exists_date rfl with
    ⟨other, hOther, hDay, hMonth, hYear⟩
  have hSame : other = date := by
    apply Date.dayNumber_inj
    omega
  subst hSame
  have hShift := toInt_shift hNear
  simp only [civilFromDays]
  generalize days + 719468 = z at hShift ⊢
  rw [← hShift] at hFalls
  have hEra :
      ((if 0 ≤ z then z else z - 146096) / 146097).toInt =
        z.toInt / 146097 := by
    apply toInt_era
    unfold Near at hNear
    unfold Fits64
    omega
  generalize
    (if 0 ≤ z then z else z - 146096) / 146097 = e
    at hEra ⊢
  have hDayOfEra :
      ((UInt32.ofInt (z - e * 146097).toInt).toNat : Int) =
        z.toInt % 146097 := by
    apply toNat_dayOfEra _ hEra
    rwa [hShift, Int.add_sub_cancel]
  generalize UInt32.ofInt (z - e * 146097).toInt = d
    at hDayOfEra ⊢
  have hPlace : e.toInt = era ∧
      d.toNat =
        36524 * century + 1461 * fours + 365 * year +
          day := by
    rcases hFalls with ⟨hSum, hCentury, hFours, hLe, hLast⟩
    omega
  have hYearOfEra := toNat_yearOfEra hFalls hPlace.2
  have hDayOfYear :=
    toNat_dayOfYear hFalls hPlace.2 hYearOfEra
  generalize yearOfEra d = y at hYearOfEra hDayOfYear ⊢
  generalize dayOfYear d y = r at hDayOfYear ⊢
  have hInYear : r.toNat ≤ 365 := by
    have := hFalls.day_le
    omega
  have hPrime := toNat_monthPrime hInYear
  have hDayOut := toNat_day hInYear hPrime
  have hTwelve : (monthPrime r).toNat ≤ 11 := by omega
  have hMonthOut := toNat_month hTwelve
  rw [hPrime, hDayOfYear] at hMonthOut hDayOut
  rw [← hMonth] at hMonthOut
  rw [← hDay] at hDayOut
  refine ⟨?_, hMonthOut, hDayOut⟩
  generalize
    monthPrime r + (if monthPrime r < 10 then 3 else -9) = m
    at hMonthOut ⊢
  have hEarly : m ≤ 2 ↔ other.month ≤ 2 := by
    rw [UInt32.le_iff_toNat_le, hMonthOut]
    rfl
  have hAdds :
      (if m ≤ 2 then (1 : Int64) else 0).toInt =
        if other.month ≤ 2 then 1 else 0 := by
    by_cases hFirst : other.month ≤ 2
    · rw [if_pos (hEarly.mpr hFirst), if_pos hFirst]
      rfl
    · rw [if_neg (mt hEarly.mp hFirst), if_neg hFirst]
      rfl
  have hOne :
      0 ≤ (if m ≤ 2 then (1 : Int64) else 0).toInt ∧
        (if m ≤ 2 then (1 : Int64) else 0).toInt ≤ 1 := by
    rw [hAdds]
    split <;> omega
  have hEraNear : -2 ^ 42 ≤ e.toInt ∧ e.toInt < 2 ^ 42 := by
    unfold Near at hNear
    omega
  rw [Int64.toInt_toInt32, toInt_year hOne hEraNear, hAdds,
    hYearOfEra, hPlace.1, hYear]
  congr 1
  push_cast
  omega

------------------------------------------------------------
-- The Clock
------------------------------------------------------------

/- The days since the epoch have the same dates here. -/
theorem room_civilFromDays
    {days : Nat}
    {date : Date}
    (hDate : date.dayNumber = days) :
    Room.civilFromDays days =
      (date.year.toNat, date.month, date.day) := by
  simp only [Room.civilFromDays]
  generalize hShift : days + 719468 = z
  rcases exists_falls z with
    ⟨era, century, fours, year, day, hFalls⟩
  rcases hFalls.exists_date rfl with
    ⟨other, hOther, hDay, hMonth, hYear⟩
  have hSame : other = date := by
    apply Date.dayNumber_inj
    omega
  subst hSame
  have hPlace :
      (z / 146097 : Nat) = era ∧
        z - z / 146097 * 146097 =
          36524 * century + 1461 * fours + 365 * year +
            day := by
    rcases hFalls with ⟨hSum, hCentury, hFours, hLe, hLast⟩
    omega
  have hYearOfEra := yearOfEra_eq hFalls hPlace.2
  have hDayOfYear :=
    (dayOfYear_eq hFalls hPlace.2 hYearOfEra).2
  have hNatural :
      100 * century + 4 * fours + year +
            z / 146097 * 400 +
          (if other.month ≤ 2 then 1 else 0) =
        other.year.toNat := by
    rw [hYear, ← hPlace.1]
    split <;> omega
  rw [hDayOfYear, hYearOfEra, ← hMonth, ← hDay, hNatural]

/- What a reply shows of a moment. -/
def utcText
    (hours minutes seconds : Nat)
    (date : Date) :
    Bytes :=
  decimalPadded hours ++ ascii ":" ++
    decimalPadded minutes ++ ascii ":" ++
    decimalPadded seconds ++ ascii " " ++
    decimal date.day ++ ascii "/" ++ decimal date.month ++
    ascii "/" ++ decimal date.year.toNat ++ ascii " UTC"

/- A moment is the time of a day, by the hour and minute. -/
structure IsMoment
    (epoch : UInt32)
    (hours minutes seconds : Nat)
    (date : Date) :
    Prop where
  day : LiesAfter (epoch.toNat / 86400 : Nat) date
  sum :
    epoch.toNat =
      epoch.toNat / 86400 * 86400 + hours * 3600 +
        minutes * 60 + seconds
  hours_lt : hours < 24
  minutes_lt : minutes < 60
  seconds_lt : seconds < 60

theorem formatUtc_eq
    {epoch : UInt32}
    {hours minutes seconds : Nat}
    {date : Date}
    (hMoment :
      IsMoment epoch hours minutes seconds date) :
    Room.formatUtc epoch =
      utcText hours minutes seconds date := by
  rcases hMoment with
    ⟨hDay, hSum, hHours, hMinutes, hSeconds⟩
  have hHour : epoch.toNat % 86400 / 3600 = hours := by omega
  have hMinute :
      epoch.toNat % 86400 / 60 % 60 = minutes := by
    omega
  have hSecond : epoch.toNat % 86400 % 60 = seconds := by
    omega
  simp only [Room.formatUtc,
    room_civilFromDays (liesAfter_iff.mp hDay), hHour,
    hMinute, hSecond]
  rfl

/- A year that an `int` holds. -/
def FitsInt (year : Int) : Prop :=
  -2 ^ 31 ≤ year ∧ year < 2 ^ 31

instance (year : Int) : Decidable (FitsInt year) := by
  unfold FitsInt
  infer_instance

theorem FitsInt.bmod_eq
    {year : Int}
    (hYear : FitsInt year) :
    year.bmod (2 ^ 32) = year := by
  unfold FitsInt at hYear
  apply Int.bmod_eq_of_le <;> omega

/- The days of such years are far from overflowing. -/
theorem near_of_fitsInt
    {date : Date}
    (hYear : FitsInt date.year) :
    Near date.dayNumber := by
  have hPos := date.day_pos
  have hBounds := date.day_bounds
  have hLong := daysBeforeYear_succ date.year
  unfold FitsInt at hYear
  unfold Near Date.dayNumber
  unfold daysBeforeYear at hLong ⊢
  omega

/- On the days a clock can show the code is the room's. -/
theorem room_civilFromDays_eq (epoch : UInt32) :
    Room.civilFromDays (epoch.toNat / 86400) =
      let days := Int64.ofNat (epoch.toNat / 86400)
      ((civilFromDays days).1.toInt.toNat,
        (civilFromDays days).2.1.toNat,
        (civilFromDays days).2.2.toNat) := by
  have hLess := epoch.toNat_lt
  have hDays :
      (Int64.ofNat (epoch.toNat / 86400)).toInt =
        (epoch.toNat / 86400 : Nat) :=
    Int64.toInt_ofNat_of_lt (by omega)
  rcases exists_dayNumber (epoch.toNat / 86400 : Nat) with
    ⟨date, hDate⟩
  have hNear :
      Near (Int64.ofNat (epoch.toNat / 86400)).toInt := by
    unfold Near
    omega
  have hYear : FitsInt date.year := by
    have hPos := date.day_pos
    have hBounds := date.day_bounds
    have hLong := daysBeforeYear_succ date.year
    unfold Date.dayNumber at hDate
    unfold daysBeforeYear at hLong hDate
    unfold FitsInt
    omega
  have hCode :=
    civilFromDays_of_dayNumber hNear
      (hDate.trans hDays.symm)
  rw [room_civilFromDays hDate]
  simp only [hCode.1, hCode.2.1, hCode.2.2, hYear.bmod_eq]

/-
  Dates are right. One date lies as many days after the
  epoch as a number says; where its year fits an `int` it is
  the date the code computes; and what a reply shows of an
  epoch is the time of day and the date of that moment.
-/
theorem dates_are_right :
    (∀ days : Int64,
      ∃! date, LiesAfter days.toInt date) ∧
    (∀ (days : Int64) (date : Date),
      LiesAfter days.toInt date → FitsInt date.year →
        (civilFromDays days).1.toInt = date.year ∧
          (civilFromDays days).2.1.toNat = date.month ∧
          (civilFromDays days).2.2.toNat = date.day) ∧
    ∀ epoch : UInt32,
      ∃ hours minutes seconds date,
        IsMoment epoch hours minutes seconds date ∧
          Room.formatUtc epoch =
            utcText hours minutes seconds date := by
  refine ⟨fun days => existsUnique_liesAfter days.toInt,
    ?_, ?_⟩
  · intro days date hAfter hYear
    rw [liesAfter_iff] at hAfter
    have hNear := near_of_fitsInt hYear
    rw [hAfter] at hNear
    have hCode := civilFromDays_of_dayNumber hNear hAfter
    refine ⟨?_, hCode.2⟩
    rw [hCode.1, hYear.bmod_eq]
  · intro epoch
    rcases existsUnique_liesAfter
        (epoch.toNat / 86400 : Nat) with
      ⟨date, hDate, _⟩
    have hMoment :
        IsMoment epoch (epoch.toNat % 86400 / 3600)
          (epoch.toNat % 86400 / 60 % 60)
          (epoch.toNat % 60) date :=
      ⟨hDate, by omega, by omega, by omega, by omega⟩
    exact ⟨_, _, _, date, hMoment, formatUtc_eq hMoment⟩

section Example

/- The last day of February in the year 2000. -/
def leapDay : Date :=
  { year := 2000
    month := 2
    day := 29
    month_pos := by decide
    month_le := by decide
    day_pos := by decide
    day_le := by decide }

theorem civilFromDays_leapDay :
    (civilFromDays 11016).1.toInt = 2000 ∧
      (civilFromDays 11016).2.1.toNat = 2 ∧
      (civilFromDays 11016).2.2.toNat = 29 :=
  dates_are_right.2.1 11016 leapDay
    (liesAfter_iff.mpr (by decide)) (by decide)

end Example

end Dates

end MeshCore
