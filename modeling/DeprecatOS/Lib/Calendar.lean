import Mathlib.Algebra.BigOperators.Group.List.Basic
import Mathlib.Data.List.Range
import Mathlib.Tactic.IntervalCases

/-!
# The Gregorian calendar

Dates and the number of days since the first of January 1970. The number is given by a formula in which a year begins in
March, so that the leap day is its last day and the lengths of the months before it follow one linear rule. The formula
counts the days of the calendar: it agrees with the lengths of the years and months, and dates with the same number are
the same.
-/

namespace Calendar

def leap (year : Nat) : Bool := year % 4 = 0 ∧ (year % 100 ≠ 0 ∨ year % 400 = 0)

def yearDays (year : Nat) : Nat := if leap year then 366 else 365

def monthDays (year i : Nat) : Nat :=
  if i = 1 then if leap year then 29 else 28 else if i = 3 ∨ i = 5 ∨ i = 8 ∨ i = 10 then 30 else 31

def daysBefore (year i : Nat) : Nat := ((List.range i).map (monthDays year)).sum

theorem daysBefore_zero (year : Nat) : daysBefore year 0 = 0 := rfl

theorem daysBefore_succ (year i : Nat) : daysBefore year (i + 1) = daysBefore year i + monthDays year i := by
  simp [daysBefore, List.range_succ]

theorem daysBefore_twelve (year : Nat) : daysBefore year 12 = yearDays year := by
  cases h : leap year <;> simp [daysBefore, List.range_succ, monthDays, yearDays, h]

theorem daysBefore_mono (year : Nat) {i j : Nat} (hij : i ≤ j) : daysBefore year i ≤ daysBefore year j := by
  induction hij with
  | refl => exact le_rfl
  | step _ ih =>
    rw [daysBefore_succ]
    omega

structure IsDate (year month day : Nat) : Prop where
  month_pos : 1 ≤ month
  month_le : month ≤ 12
  day_pos : 1 ≤ day
  day_le : day ≤ monthDays year (month - 1)

/-- The number of days since the first of January 1970. -/
def dayNumber (year month day : Int) : Int :=
  let year := year - if month ≤ 2 then 1 else 0
  let era := year / 400
  let yearOfEra := year - era * 400
  let dayOfYear := (153 * (month + if 2 < month then -3 else 9) + 2) / 5 + day - 1
  let dayOfEra := yearOfEra * 365 + yearOfEra / 4 - yearOfEra / 100 + dayOfYear
  era * 146097 + dayOfEra - 719468

/-- The days before the March year `year`. -/
def marchDays (year : Int) : Int := year * 365 + year / 4 - year / 100 + year / 400

theorem dayNumber_eq_marchDays (year month day : Int) :
    dayNumber year month day = marchDays (year - if month ≤ 2 then 1 else 0) +
      (153 * (month + if 2 < month then -3 else 9) + 2) / 5 + day - 719469 := by
  simp only [dayNumber, marchDays]
  generalize (year - if month ≤ 2 then 1 else 0) = y
  generalize (153 * (month + if 2 < month then -3 else 9) + 2) / 5 = d
  omega

theorem leap_iff (year : Nat) : leap year = true ↔ year % 4 = 0 ∧ (year % 100 ≠ 0 ∨ year % 400 = 0) := by
  simp [leap]

/-- The leap day at the end of a March year is that of the civil year the year ends in. -/
theorem marchDays_succ (year : Nat) : marchDays year = marchDays (year - 1 : Int) + yearDays year := by
  simp only [marchDays, yearDays]
  by_cases h : leap year
  · rw [if_pos h]
    rw [leap_iff] at h
    omega
  · rw [if_neg h]
    rw [leap_iff] at h
    omega

theorem dayNumber_epoch : dayNumber 1970 1 1 = 0 := by decide

theorem dayNumber_nextYear (year : Nat) : dayNumber (year + 1 : Nat) 1 1 = dayNumber year 1 1 + yearDays year := by
  have hmarch := marchDays_succ year
  simp only [dayNumber_eq_marchDays, Int.reduceLE, if_true]
  push_cast
  rw [show (year : Int) + 1 - 1 = year by omega]
  omega

theorem dayNumber_eq {year month day : Nat} (hdate : IsDate year month day) :
    dayNumber year month day = dayNumber year 1 1 + daysBefore year (month - 1) + (day - 1 : Int) := by
  obtain ⟨hpos, hle, -, -⟩ := hdate
  have hmarch := marchDays_succ year
  simp only [dayNumber_eq_marchDays]
  unfold yearDays at hmarch
  cases hleap : leap year <;> rw [hleap] at hmarch <;> interval_cases month <;>
    simp [daysBefore, List.range_succ, monthDays, hleap] at hmarch ⊢ <;> omega

theorem dayNumber_newYear_mono {year year' : Nat} (hle : year ≤ year') : dayNumber year 1 1 ≤ dayNumber year' 1 1 := by
  induction hle with
  | refl => exact le_rfl
  | step _ ih =>
    rw [Nat.succ_eq_add_one, dayNumber_nextYear]
    omega

section Unique

variable {year month day year' month' day' : Nat}

theorem IsDate.daysBefore_add_lt (hdate : IsDate year month day) :
    daysBefore year (month - 1) + (day - 1) < daysBefore year month := by
  obtain ⟨hpos, hle, hday, hdayLe⟩ := hdate
  obtain ⟨i, rfl⟩ : ∃ i, month = i + 1 := ⟨month - 1, by omega⟩
  rw [Nat.add_sub_cancel] at hdayLe ⊢
  rw [daysBefore_succ]
  omega

theorem IsDate.mem_year (hdate : IsDate year month day) :
    dayNumber year 1 1 ≤ dayNumber year month day ∧ dayNumber year month day < dayNumber (year + 1 : Nat) 1 1 := by
  have hlt := hdate.daysBefore_add_lt
  have hmono := daysBefore_mono year hdate.month_le
  have hday := hdate.day_pos
  rw [daysBefore_twelve] at hmono
  rw [dayNumber_eq hdate, dayNumber_nextYear]
  omega

theorem IsDate.unique (hdate : IsDate year month day) (hdate' : IsDate year' month' day')
    (heq : dayNumber year month day = dayNumber year' month' day') : year = year' ∧ month = month' ∧ day = day' := by
  have hin := hdate.mem_year
  have hin' := hdate'.mem_year
  obtain rfl : year = year' := by
    by_contra hne
    obtain hlt | hgt := Nat.lt_or_gt_of_ne hne
    · have := dayNumber_newYear_mono (Nat.succ_le_of_lt hlt)
      rw [Nat.succ_eq_add_one] at this
      omega
    · have := dayNumber_newYear_mono (Nat.succ_le_of_lt hgt)
      rw [Nat.succ_eq_add_one] at this
      omega
  have hday := hdate.day_pos
  have hday' := hdate'.day_pos
  have hsum : daysBefore year (month - 1) + (day - 1) = daysBefore year (month' - 1) + (day' - 1) := by
    rw [dayNumber_eq hdate, dayNumber_eq hdate'] at heq
    omega
  have hlt := hdate.daysBefore_add_lt
  have hlt' := hdate'.daysBefore_add_lt
  obtain rfl : month = month' := by
    by_contra hne
    obtain hless | hgreater := Nat.lt_or_gt_of_ne hne
    · have := daysBefore_mono year (show month ≤ month' - 1 by omega)
      omega
    · have := daysBefore_mono year (show month' ≤ month - 1 by omega)
      omega
  exact ⟨rfl, rfl, by omega⟩

end Unique

end Calendar
