import Mathlib.Logic.Function.Basic

/-!
# From the epoch to a date

`epochToDate.c`. The lengths of the months are a static array, to which February's leap day is added for the time of one
call.
-/

namespace DeprecatOS

/-- The contents of the static array `days_per_month`. -/
abbrev MonthTable := Fin 12 → UInt32

def daysPerMonth : MonthTable
  | 0 => 31 | 1 => 28 | 2 => 31 | 3 => 30 | 4 => 31 | 5 => 30
  | 6 => 31 | 7 => 31 | 8 => 30 | 9 => 31 | 10 => 30 | 11 => 31

structure Date where
  year : UInt64
  month : UInt64
  day : UInt64
  hour : UInt64
  minute : UInt64
  second : UInt64
  millisecond : UInt64
  deriving DecidableEq

def isLeapYear (year : UInt64) : Bool := year % 4 = 0 ∧ (year % 100 ≠ 0 ∨ year % 400 = 0)

def daysInYear (year : UInt64) : UInt32 := if isLeapYear year then 366 else 365

theorem daysInYear_pos (year : UInt64) : 0 < (daysInYear year).toUInt64.toNat := by
  unfold daysInYear
  split <;> decide

def yearLoop (dayOfEpoch year : UInt64) : UInt64 × UInt64 :=
  if dayOfEpoch < (daysInYear year).toUInt64 then (dayOfEpoch, year)
  else yearLoop (dayOfEpoch - (daysInYear year).toUInt64) (year + 1)
termination_by dayOfEpoch.toNat
decreasing_by
  rename_i hle
  have hle := UInt64.not_lt.mp hle
  rw [UInt64.toNat_sub_of_le _ _ hle]
  rw [UInt64.le_iff_toNat_le] at hle
  have hpos := daysInYear_pos year
  omega

/-- The loop over the months: what is left of `day_of_epoch`, and the month. There is no result when it reads past the
end of the array. -/
def monthLoop (table : MonthTable) (dayOfEpoch month : UInt64) : Option (UInt64 × UInt64) :=
  if hindex : (month - 1).toNat < 12 then
    if (table ⟨(month - 1).toNat, hindex⟩).toUInt64 ≤ dayOfEpoch then
      monthLoop table (dayOfEpoch - (table ⟨(month - 1).toNat, hindex⟩).toUInt64) (month + 1)
    else some (dayOfEpoch, month)
  else none
termination_by 12 - (month - 1).toNat
decreasing_by
  have hmonth : month.toNat < 2 ^ 64 := month.toNat_lt
  have hone : (1 : UInt64).toNat = 1 := rfl
  rw [UInt64.add_sub_cancel]
  rw [UInt64.toNat_sub] at hindex ⊢
  omega

/-- The date of a number of milliseconds, and the array afterwards. -/
def epochToDate (table : MonthTable) (epoch : UInt64) : Option (Date × MonthTable) :=
  let millisecond := epoch % 1000
  let epoch := epoch / 1000
  let second := epoch % 60
  let epoch := epoch / 60
  let minute := epoch % 60
  let epoch := epoch / 60
  let hour := epoch % 24
  let dayOfEpoch := epoch / 24
  let (dayOfEpoch, year) := yearLoop dayOfEpoch 1970
  let leap := isLeapYear year
  let table := if leap then Function.update table 1 (table 1 + 1) else table
  match monthLoop table dayOfEpoch 1 with
  | none => none
  | some (dayOfEpoch, month) =>
    let table := if leap then Function.update table 1 (table 1 - 1) else table
    some (⟨year, month, dayOfEpoch + 1, hour, minute, second, millisecond⟩, table)

end DeprecatOS
