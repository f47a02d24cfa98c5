import Mathlib.Algebra.Order.Ring.Int
import Mathlib.Data.Int.ConditionallyCompleteOrder
import Mathlib.Order.Monotone.Basic
import Mathlib.Tactic.IntervalCases

/-
  The proleptic Gregorian calendar: its dates, how they
  follow one another, and the number of days from one to
  another.

  Key definitions include:
    * `Calendar.IsLeap`, `Calendar.monthLength`
    * `Calendar.Date`, `Calendar.Date.next`
    * `Calendar.LiesAfter`
    * `Calendar.Date.dayNumber`
    * `Calendar.Falls`

  Key facts include:
    * `Calendar.Date.dayNumber_next`
    * `Calendar.Date.dayNumber_inj`
    * `Calendar.exists_ofMarch`
    * `Calendar.liesAfter_iff`
    * `Calendar.existsUnique_liesAfter`
-/

namespace Calendar

------------------------------------------------------------
-- Dates
------------------------------------------------------------

/- The rule of the 4, the 100 and the 400. -/
def IsLeap (year : Int) : Prop :=
  4 ∣ year ∧ (¬ 100 ∣ year ∨ 400 ∣ year)

instance (year : Int) : Decidable (IsLeap year) := by
  unfold IsLeap
  infer_instance

def monthLength (year : Int) : Nat → Nat
| 2 => if IsLeap year then 29 else 28
| 4 | 6 | 9 | 11 => 30
| _ => 31

/- A date is one there is. -/
@[ext] structure Date where
  year : Int
  month : Nat
  day : Nat
  month_pos : 1 ≤ month
  month_le : month ≤ 12
  day_pos : 1 ≤ day
  day_le : day ≤ monthLength year month
deriving DecidableEq

theorem monthLength_pos (year : Int) (month : Nat) :
    1 ≤ monthLength year month := by
  unfold monthLength
  split
  · split <;> omega
  all_goals omega

namespace Date

/- The first day of a month. -/
def first
    (year : Int)
    (month : Nat)
    (hPos : 1 ≤ month)
    (hLe : month ≤ 12) :
    Date where
  year := year
  month := month
  day := 1
  month_pos := hPos
  month_le := hLe
  day_pos := Nat.le_refl 1
  day_le := monthLength_pos year month

/- The day that follows. -/
def next (date : Date) : Date :=
  if hDay : date.day < monthLength date.year date.month then
    { date with
      day := date.day + 1
      day_pos := Nat.le_add_left 1 date.day
      day_le := hDay }
  else if hMonth : date.month < 12 then
    first date.year (date.month + 1)
      (Nat.le_add_left 1 date.month) hMonth
  else first (date.year + 1) 1 (Nat.le_refl 1) (by omega)

end Date

/- The first of January 1970. -/
def epoch : Date :=
  Date.first 1970 1 (Nat.le_refl 1) (by omega)

/-
  A date lies `n` days after the epoch, or before it where
  `n` is negative: so many steps from day to day lead there.
-/
inductive LiesAfter : Int → Date → Prop where
| epoch : LiesAfter 0 epoch
| next
    {n : Int} {date : Date}
    (hDate : LiesAfter n date) :
    LiesAfter (n + 1) date.next
| previous
    {n : Int} {date : Date}
    (hNext : LiesAfter (n + 1) date.next) :
    LiesAfter n date

------------------------------------------------------------
-- Counting Days
------------------------------------------------------------

/- Days from the epoch to the first of January. -/
def daysBeforeYear (year : Int) : Int :=
  365 * (year - 1970) +
    ((year - 1) / 4 - (year - 1) / 100 + (year - 1) / 400) -
    477

/- Days from the first of January to the first of a month. -/
def daysBeforeMonth (year : Int) : Nat → Nat
| 0 | 1 => 0
| month + 2 =>
    daysBeforeMonth year (month + 1) +
      monthLength year (month + 1)

/- Days from the epoch to a date. -/
def Date.dayNumber (date : Date) : Int :=
  daysBeforeYear date.year +
    daysBeforeMonth date.year date.month + (date.day - 1)

/- A year is as long as its months. -/
theorem daysBeforeYear_succ (year : Int) :
    daysBeforeYear (year + 1) =
      daysBeforeYear year + daysBeforeMonth year 13 := by
  have hLong :
      daysBeforeMonth year 13 =
        if IsLeap year then 366 else 365 := by
    simp only [daysBeforeMonth, monthLength]
    split <;> rfl
  rw [hLong]
  by_cases hLeap : IsLeap year
  · rw [if_pos hLeap]
    unfold IsLeap at hLeap
    unfold daysBeforeYear
    omega
  · rw [if_neg hLeap]
    unfold IsLeap at hLeap
    unfold daysBeforeYear
    omega

theorem daysBeforeMonth_succ
    (year : Int)
    {month : Nat}
    (hPos : 1 ≤ month) :
    daysBeforeMonth year (month + 1) =
      daysBeforeMonth year month +
        monthLength year month := by
  rcases Nat.exists_eq_add_of_le' hPos with ⟨k, rfl⟩
  rfl

/- The day that follows has the number that follows. -/
theorem Date.dayNumber_next (date : Date) :
    date.next.dayNumber = date.dayNumber + 1 := by
  have hDayLe := date.day_le
  unfold next
  split
  · simp only [dayNumber]
    push_cast
    omega
  · rename_i hLast
    have hMonth :=
      daysBeforeMonth_succ date.year date.month_pos
    split
    · simp only [dayNumber, first, hMonth]
      push_cast
      omega
    · rename_i hDecember
      have hTwelve : date.month = 12 := by
        have := date.month_le
        omega
      have hYear := daysBeforeYear_succ date.year
      rw [hTwelve] at hMonth hLast hDayLe
      simp only [dayNumber, first, hTwelve, hYear,
        daysBeforeMonth] at hMonth ⊢
      push_cast
      omega

theorem dayNumber_epoch : epoch.dayNumber = 0 := by
  decide

theorem daysBeforeYear_mono : Monotone daysBeforeYear := by
  apply monotone_int_of_le_succ
  intro year
  rw [daysBeforeYear_succ]
  omega

theorem daysBeforeMonth_mono (year : Int) :
    Monotone (daysBeforeMonth year) := by
  apply monotone_nat_of_le_succ
  intro month
  cases month with
  | zero => exact Nat.le_refl 0
  | succ month => exact Nat.le_add_right _ _

/- A date is in the days of its month, and of its year. -/
theorem Date.day_bounds (date : Date) :
    daysBeforeMonth date.year date.month + (date.day - 1) <
        daysBeforeMonth date.year (date.month + 1) ∧
      daysBeforeMonth date.year (date.month + 1) ≤
        daysBeforeMonth date.year 13 := by
  constructor
  · have hPos := date.day_pos
    have hLe := date.day_le
    rw [daysBeforeMonth_succ _ date.month_pos]
    omega
  · exact daysBeforeMonth_mono _
      (Nat.succ_le_succ date.month_le)

/- An earlier year is over before a date of a later one. -/
theorem Date.dayNumber_lt_of_year
    {date other : Date}
    (hYear : date.year < other.year) :
    date.dayNumber < other.dayNumber := by
  have hBounds := date.day_bounds
  have hPos := date.day_pos
  have hOther := other.day_pos
  have hNext :
      daysBeforeYear (date.year + 1) ≤
        daysBeforeYear other.year :=
    daysBeforeYear_mono hYear
  rw [daysBeforeYear_succ] at hNext
  unfold dayNumber
  omega

/- An earlier month is over before a later one of its year. -/
theorem Date.dayNumber_lt_of_month
    {date other : Date}
    (hYear : date.year = other.year)
    (hMonth : date.month < other.month) :
    date.dayNumber < other.dayNumber := by
  have hBounds := date.day_bounds
  have hPos := date.day_pos
  have hOther := other.day_pos
  have hNext :
      daysBeforeMonth date.year (date.month + 1) ≤
        daysBeforeMonth date.year other.month :=
    daysBeforeMonth_mono _ hMonth
  unfold dayNumber
  rw [← hYear]
  omega

/- No two dates have the same number. -/
theorem Date.dayNumber_inj
    {date other : Date}
    (hSame : date.dayNumber = other.dayNumber) :
    date = other := by
  have hYear : date.year = other.year := by
    rcases Int.lt_trichotomy date.year other.year with
      hLt | hEq | hGt
    · have := dayNumber_lt_of_year hLt
      omega
    · exact hEq
    · have := dayNumber_lt_of_year hGt
      omega
  have hMonth : date.month = other.month := by
    rcases Nat.lt_trichotomy date.month other.month with
      hLt | hEq | hGt
    · have := dayNumber_lt_of_month hYear hLt
      omega
    · exact hEq
    · have := dayNumber_lt_of_month hYear.symm hGt
      omega
  have hDay : date.day = other.day := by
    unfold dayNumber at hSame
    rw [hYear, hMonth] at hSame
    omega
  exact Date.ext hYear hMonth hDay

------------------------------------------------------------
-- Years from March to March
------------------------------------------------------------

/- Days from the epoch to the first of March. -/
def daysBeforeMarch (year : Int) : Int :=
  daysBeforeYear year + daysBeforeMonth year 3

theorem daysBeforeMarch_eq (year : Int) :
    daysBeforeMarch year =
      365 * year + year / 4 - year / 100 + year / 400 -
        719468 := by
  have hFebruary :
      (daysBeforeMonth year 3 : Int) =
        if IsLeap year then 60 else 59 := by
    simp only [daysBeforeMonth, monthLength]
    split <;> rfl
  unfold daysBeforeMarch
  rw [hFebruary]
  by_cases hLeap : IsLeap year
  · rw [if_pos hLeap]
    unfold IsLeap at hLeap
    unfold daysBeforeYear
    omega
  · rw [if_neg hLeap]
    unfold IsLeap at hLeap
    unfold daysBeforeYear
    omega

/-
  From March on the lengths of the months repeat, up to the
  end of the year, whatever the year is.
-/
theorem monthLength_from_march
    (year : Int)
    {k : Nat}
    (hMonth : k < 10) :
    (153 * k + 2) / 5 + monthLength year (k + 3) =
      (153 * (k + 1) + 2) / 5 := by
  interval_cases k <;> rfl

theorem daysBeforeMonth_from_march
    (year : Int)
    {k : Nat}
    (hMonth : k ≤ 10) :
    daysBeforeMonth year (k + 3) =
      daysBeforeMonth year 3 + (153 * k + 2) / 5 := by
  induction k with
  | zero => rfl
  | succ k ih =>
      rw [daysBeforeMonth_succ year (by omega),
        ih (by omega), Nat.add_assoc,
        monthLength_from_march year (by omega)]

/- The months from March on end with December. -/
theorem daysBeforeYear_of_march (year : Int) :
    daysBeforeYear (year + 1) =
      daysBeforeMarch year + 306 := by
  rw [daysBeforeYear_succ, daysBeforeMarch,
    daysBeforeMonth_from_march year (Nat.le_refl 10)]
  push_cast
  omega

/-
  The date so many days after the first of March: its month
  is found by the lengths from March on, and a January or
  February is of the year that follows.
-/
theorem exists_ofMarch
    (year : Int)
    {dayOfYear monthPrime : Nat}
    (hMonth : monthPrime = (5 * dayOfYear + 2) / 153)
    (hDay :
      dayOfYear ≤ 364 ∨
        dayOfYear = 365 ∧ IsLeap (year + 1)) :
    ∃ date : Date,
      date.dayNumber = daysBeforeMarch year + dayOfYear ∧
        date.day =
          dayOfYear - (153 * monthPrime + 2) / 5 + 1 ∧
        date.month =
          (if monthPrime < 10 then monthPrime + 3
            else monthPrime - 9) ∧
        date.year =
          year + (if date.month ≤ 2 then 1 else 0) := by
  have hStart : (153 * monthPrime + 2) / 5 ≤ dayOfYear := by
    omega
  by_cases hYear : monthPrime < 10
  · have hLength := monthLength_from_march year hYear
    have hBefore :=
      daysBeforeMonth_from_march year (Nat.le_of_lt hYear)
    refine ⟨⟨year, monthPrime + 3,
      dayOfYear - (153 * monthPrime + 2) / 5 + 1,
      by omega, by omega, by omega, by omega⟩,
      ?_, rfl, by simp [hYear], ?_⟩
    · simp only [Date.dayNumber, daysBeforeMarch, hBefore]
      push_cast
      omega
    · rw [if_neg (by simp), Int.add_zero]
  · -- January and February, at the end of the year
    have hTurn := daysBeforeYear_of_march year
    have hLast : monthPrime = 10 ∨ monthPrime = 11 := by
      omega
    rcases hLast with rfl | rfl
    · refine ⟨⟨year + 1, 1, dayOfYear - 306 + 1,
        by omega, by omega, by omega, ?_⟩,
        ?_, rfl, by simp, rfl⟩
      · change _ ≤ 31
        omega
      · simp only [Date.dayNumber, hTurn, daysBeforeMonth]
        push_cast
        omega
    · refine ⟨⟨year + 1, 2, dayOfYear - 337 + 1,
        by omega, by omega, by omega, ?_⟩,
        ?_, rfl, by simp, rfl⟩
      · simp only [monthLength]
        split
        · omega
        · rename_i hCommon
          have : dayOfYear ≤ 364 :=
            hDay.resolve_right fun h => hCommon h.2
          omega
      · simp only [Date.dayNumber, hTurn, daysBeforeMonth,
          monthLength]
        push_cast
        omega

------------------------------------------------------------
-- Eras
------------------------------------------------------------

/-
  Where a day falls, counted from the first of March of the
  year zero: in an era of 400 years, a century of it, four
  years of that, a year and a day.
-/
structure Falls
    (n era : Int)
    (century fours year day : Nat) :
    Prop where
  sum :
    n =
      146097 * era + 36524 * century + 1461 * fours +
        365 * year + day
  century_le : century ≤ 3
  fours_le : fours ≤ 24
  year_le : year ≤ 3
  day_le :
    day ≤ 364 ∨
      day = 365 ∧ year = 3 ∧ (fours < 24 ∨ century = 3)

/- A day in one of `k` equal spans, the last of any length. -/
theorem exists_span
    (span : Nat)
    (hSpan : 0 < span)
    (k n : Nat) :
    ∃ i r, n = span * i + r ∧ i ≤ k ∧
      (r < span ∨ i = k) := by
  by_cases hLast : n / span ≤ k
  · exact ⟨n / span, n % span,
      (Nat.div_add_mod n span).symm, hLast,
      .inl (Nat.mod_lt n hSpan)⟩
  · refine ⟨k, n - span * k, ?_, Nat.le_refl k, .inr rfl⟩
    have hLe : span * k ≤ n := by
      rw [Nat.mul_comm]
      exact (Nat.le_div_iff_mul_le hSpan).mp
        (Nat.le_of_not_le hLast)
    omega

theorem exists_falls (n : Int) :
    ∃ era century fours year day,
      Falls n era century fours year day := by
  have hEra : 0 ≤ n % 146097 ∧ n % 146097 < 146097 := by
    omega
  rcases Int.eq_ofNat_of_zero_le hEra.1 with ⟨d, hd⟩
  rcases exists_span 36524 (by omega) 3 d with
    ⟨century, d, rfl, hCentury, hInCentury⟩
  rcases exists_span 1461 (by omega) 24 d with
    ⟨fours, d, rfl, hFours, hInFours⟩
  rcases exists_span 365 (by omega) 3 d with
    ⟨year, d, rfl, hYear, hInYear⟩
  refine ⟨n / 146097, century, fours, year, d, ?_,
    hCentury, hFours, hYear, ?_⟩
  · push_cast at hd
    omega
  · omega

namespace Falls

variable {n era : Int}
variable {century fours year day : Nat}

/- The year it falls in begins with its first of March. -/
theorem daysBeforeMarch
    (hFalls : Falls n era century fours year day) :
    daysBeforeMarch
          (400 * era + 100 * century + 4 * fours + year) +
        day =
      n - 719468 := by
  rcases hFalls with
    ⟨hSum, hCentury, hFours, hYear, hDay⟩
  rw [daysBeforeMarch_eq]
  omega

/- It is the last of 366 days before a leap year's March. -/
theorem leap
    (hFalls : Falls n era century fours year day)
    (hLast : ¬ day ≤ 364) :
    day = 365 ∧
      IsLeap
        (400 * era + 100 * century + 4 * fours + year +
          1) := by
  rcases hFalls with
    ⟨hSum, hCentury, hFours, hYear, hDay⟩
  unfold IsLeap
  omega

/- The date it is. -/
theorem exists_date
    (hFalls : Falls n era century fours year day)
    {monthPrime : Nat}
    (hMonth : monthPrime = (5 * day + 2) / 153) :
    ∃ date : Date,
      date.dayNumber = n - 719468 ∧
        date.day = day - (153 * monthPrime + 2) / 5 + 1 ∧
        date.month =
          (if monthPrime < 10 then monthPrime + 3
            else monthPrime - 9) ∧
        date.year =
          400 * era + 100 * century + 4 * fours + year +
            (if date.month ≤ 2 then 1 else 0) := by
  rw [← hFalls.daysBeforeMarch]
  apply exists_ofMarch _ hMonth
  by_cases hLast : day ≤ 364
  · exact .inl hLast
  · exact .inr (hFalls.leap hLast)

end Falls

/- Every number is the number of a date. -/
theorem exists_dayNumber (n : Int) :
    ∃ date : Date, date.dayNumber = n := by
  rcases exists_falls (n + 719468) with
    ⟨era, century, fours, year, day, hFalls⟩
  rcases hFalls.exists_date rfl with ⟨date, hDate, _⟩
  exact ⟨date, by omega⟩

/- A date lies as many days after the epoch as it counts. -/
theorem liesAfter_iff {n : Int} {date : Date} :
    LiesAfter n date ↔ date.dayNumber = n := by
  constructor
  · intro hDate
    induction hDate with
    | epoch => exact dayNumber_epoch
    | next _ ih => rw [Date.dayNumber_next, ih]
    | previous _ ih =>
        rw [Date.dayNumber_next] at ih
        omega
  · intro hNumber
    induction n using Int.induction_on generalizing date with
    | zero =>
        rw [Date.dayNumber_inj
          (hNumber.trans dayNumber_epoch.symm)]
        exact .epoch
    | succ n ih =>
        -- it follows the date with the number before it
        rcases exists_dayNumber n with ⟨before, hBefore⟩
        have hNext : before.next = date := by
          apply Date.dayNumber_inj
          rw [Date.dayNumber_next, hBefore, hNumber]
        rw [← hNext]
        exact .next (ih hBefore)
    | pred n ih =>
        apply LiesAfter.previous
        rw [Int.sub_add_cancel]
        apply ih
        rw [Date.dayNumber_next, hNumber, Int.sub_add_cancel]

/- One date lies so many days after the epoch, and no other. -/
theorem existsUnique_liesAfter (n : Int) :
    ∃! date, LiesAfter n date := by
  rcases exists_dayNumber n with ⟨date, hDate⟩
  refine ⟨date, liesAfter_iff.mpr hDate, ?_⟩
  intro other hOther
  apply Date.dayNumber_inj
  rw [hDate, liesAfter_iff.mp hOther]

end Calendar
