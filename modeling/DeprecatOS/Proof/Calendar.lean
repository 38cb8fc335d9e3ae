import DeprecatOS.EpochToDate
import DeprecatOS.Lib.Calendar
import DeprecatOS.Timer

/-!
# The clock and the calendar

`epoch_to_date` finds the date whose day number, by the formula of `get_seconds_startup`, is that of the given time.
The first loop keeps the number of the first of January plus the days left, the second the days of the months before
plus the days left. A date is determined by its number, so the date of a valid reading of the clock comes back.
-/

namespace DeprecatOS

open Calendar

/-! ### Years -/

theorem isLeapYear_eq (year : UInt64) : isLeapYear year = leap year.toNat := by
  have hzero : ∀ d : UInt64, year % d = 0 ↔ year.toNat % d.toNat = 0 := by
    intro d
    rw [← UInt64.toNat_inj, UInt64.toNat_mod]
    rfl
  simp only [isLeapYear, leap, ne_eq, hzero]
  rfl

theorem toNat_daysInYear (year : UInt64) : (daysInYear year).toUInt64.toNat = yearDays year.toNat := by
  unfold daysInYear yearDays
  rw [isLeapYear_eq]
  split_ifs <;> rfl

theorem yearLoop_spec {days year : UInt64} (hbound : year.toNat + days.toNat < 2 ^ 64) :
    (yearLoop days year).1.toNat < yearDays (yearLoop days year).2.toNat ∧
      dayNumber (yearLoop days year).2.toNat 1 1 + (yearLoop days year).1.toNat
        = dayNumber year.toNat 1 1 + days.toNat := by
  fun_induction yearLoop days year with
  | case1 days year hlt =>
    rw [UInt64.lt_iff_toNat_lt, toNat_daysInYear] at hlt
    exact ⟨hlt, rfl⟩
  | case2 days year hlt ih =>
    have hle : (daysInYear year).toUInt64 ≤ days := UInt64.not_lt.mp hlt
    have hleft : (days - (daysInYear year).toUInt64).toNat = days.toNat - yearDays year.toNat := by
      rw [UInt64.toNat_sub_of_le _ _ hle, toNat_daysInYear]
    have hpos : 0 < yearDays year.toNat := toNat_daysInYear year ▸ daysInYear_pos year
    rw [UInt64.le_iff_toNat_le, toNat_daysInYear] at hle
    have hnext : (year + 1).toNat = year.toNat + 1 := by
      rw [UInt64.toNat_add]
      exact Nat.mod_eq_of_lt (show year.toNat + 1 < 2 ^ 64 by omega)
    obtain ⟨hrest, hnumber⟩ := ih (by omega)
    refine ⟨hrest, hnumber.trans ?_⟩
    rw [hnext, hleft, dayNumber_nextYear]
    omega

/-! ### Months -/

local instance neZeroMonths : NeZero 12 := ⟨by decide⟩

def tableOf (year : Nat) : MonthTable :=
  if leap year then Function.update daysPerMonth 1 (daysPerMonth 1 + 1) else daysPerMonth

theorem toNat_tableOf (year : Nat) (i : Fin 12) : (tableOf year i).toUInt64.toNat = monthDays year i := by
  unfold tableOf monthDays
  revert i
  cases leap year <;> decide

theorem monthLoop_spec {year : Nat} {days month : UInt64} (hpos : 1 ≤ month.toNat) (hle : month.toNat ≤ 12)
    (hbound : daysBefore year (month.toNat - 1) + days.toNat < yearDays year) :
    ∃ left found : UInt64, monthLoop (tableOf year) days month = some (left, found) ∧
      1 ≤ found.toNat ∧ found.toNat ≤ 12 ∧ left.toNat < monthDays year (found.toNat - 1) ∧
      daysBefore year (found.toNat - 1) + left.toNat = daysBefore year (month.toNat - 1) + days.toNat := by
  have hprev : ∀ m : UInt64, 1 ≤ m.toNat → (m - 1).toNat = m.toNat - 1 := fun m hm =>
    UInt64.toNat_sub_of_le _ _ (UInt64.le_iff_toNat_le.mpr hm)
  fun_induction monthLoop (tableOf year) days month with
  | case1 days month hindex hlong ih =>
    have hentry : (tableOf year ⟨(month - 1).toNat, hindex⟩).toUInt64.toNat = monthDays year (month.toNat - 1) :=
      (toNat_tableOf year _).trans (congrArg (monthDays year) (hprev month hpos))
    have hleft : (days - (tableOf year ⟨(month - 1).toNat, hindex⟩).toUInt64).toNat
        = days.toNat - monthDays year (month.toNat - 1) := by
      rw [UInt64.toNat_sub_of_le _ _ hlong, hentry]
    rw [UInt64.le_iff_toNat_le, hentry] at hlong
    have hnext : (month + 1).toNat = month.toNat + 1 := by
      rw [UInt64.toNat_add]
      exact Nat.mod_eq_of_lt (show month.toNat + 1 < 2 ^ 64 by omega)
    have hsucc : daysBefore year month.toNat
        = daysBefore year (month.toNat - 1) + monthDays year (month.toNat - 1) := by
      conv_lhs => rw [← Nat.sub_add_cancel hpos]
      exact daysBefore_succ _ _
    -- December is not left, as its end is the end of the year.
    have hmore : month.toNat ≠ 12 := by
      intro heq
      have htwelve := daysBefore_twelve year
      rw [heq] at hsucc hbound hlong
      omega
    rw [hnext, hleft, Nat.add_sub_cancel] at ih
    obtain ⟨left, found, hloop, hfound, hfound', hshort, hsum⟩ := ih (by omega) (by omega) (by omega)
    exact ⟨left, found, hloop, hfound, hfound', hshort, by omega⟩
  | case2 days month hindex hshort =>
    refine ⟨days, month, rfl, hpos, hle, ?_, rfl⟩
    have hentry := (toNat_tableOf year ⟨(month - 1).toNat, hindex⟩).trans (congrArg (monthDays year) (hprev month hpos))
    rwa [UInt64.not_le, UInt64.lt_iff_toNat_lt, hentry] at hshort
  | case3 days month hindex =>
    rw [hprev month hpos] at hindex
    omega

/-! ### A whole date -/

structure Date.Valid (d : Date) : Prop where
  date : IsDate d.year.toNat d.month.toNat d.day.toNat
  hour : d.hour.toNat < 24
  minute : d.minute.toNat < 60
  second : d.second.toNat < 60
  millisecond : d.millisecond.toNat < 1000

def Date.seconds (d : Date) : Int :=
  dayNumber d.year.toNat d.month.toNat d.day.toNat * 86400 + d.hour.toNat * 3600 + d.minute.toNat * 60 + d.second.toNat

theorem tableOf_restore (year : Nat) :
    (if leap year then Function.update (tableOf year) 1 (tableOf year 1 - 1) else tableOf year) = daysPerMonth := by
  unfold tableOf
  split_ifs
  · rw [Function.update_self, UInt32.add_sub_cancel, Function.update_idem, Function.update_eq_self]
  · rfl

theorem epochToDate_spec (x : UInt64) : ∃ d : Date, epochToDate daysPerMonth x = some (d, daysPerMonth) ∧ d.Valid ∧
    d.seconds = x.toNat / 1000 ∧ d.millisecond.toNat = x.toNat % 1000 := by
  have hx := x.toNat_lt
  have hdays : (x / 1000 / 60 / 60 / 24).toNat = x.toNat / 86400000 := by
    simp only [UInt64.toNat_div, UInt64.reduceToNat]
    omega
  have hstart : (1970 : UInt64).toNat = 1970 := rfl
  obtain ⟨hyear, hnumber⟩ :=
    yearLoop_spec (show (1970 : UInt64).toNat + (x / 1000 / 60 / 60 / 24).toNat < 2 ^ 64 by omega)
  generalize hloop : yearLoop (x / 1000 / 60 / 60 / 24) 1970 = loop at hyear hnumber
  obtain ⟨days, year⟩ := loop
  dsimp only at hyear hnumber
  have hone : (1 : UInt64).toNat = 1 := rfl
  obtain ⟨left, month, hmonths, hmonth, hmonth', hleft, hsum⟩ :=
    monthLoop_spec (show 1 ≤ (1 : UInt64).toNat by omega) (by omega)
      (show daysBefore year.toNat ((1 : UInt64).toNat - 1) + days.toNat < yearDays year.toNat by
        rw [hone, Nat.sub_self, daysBefore_zero]
        omega)
  have hday : (left + 1).toNat = left.toNat + 1 := by
    have hlt : monthDays year.toNat (month.toNat - 1) ≤ 31 := by
      unfold monthDays
      split_ifs <;> omega
    rw [UInt64.toNat_add, hone]
    omega
  have hdate : IsDate year.toNat month.toNat (left + 1).toNat := ⟨hmonth, hmonth', by omega, by omega⟩
  refine ⟨⟨year, month, left + 1, x / 1000 / 60 / 60 % 24, x / 1000 / 60 % 60, x / 1000 % 60, x % 1000⟩, ?_, ?_, ?_, ?_⟩
  · unfold epochToDate
    simp only [hloop, isLeapYear_eq]
    rw [← tableOf, hmonths]
    dsimp only
    rw [tableOf_restore]
  · refine ⟨hdate, ?_, ?_, ?_, ?_⟩ <;> simp only [UInt64.toNat_mod, UInt64.reduceToNat] <;> exact Nat.mod_lt _ (by decide)
  · have hepoch := dayNumber_epoch
    rw [hstart] at hnumber
    rw [hone, Nat.sub_self, daysBefore_zero] at hsum
    rw [Date.seconds]
    dsimp only
    rw [dayNumber_eq hdate, hday]
    simp only [UInt64.toNat_mod, UInt64.toNat_div, UInt64.reduceToNat]
    push_cast at hnumber ⊢
    rw [hepoch] at hnumber
    omega
  · simp only [UInt64.toNat_mod, UInt64.reduceToNat]

/-! ### Reading the clock -/

def bcd (v : Nat) : UInt8 := UInt8.ofNat (v / 10 * 16 + v % 10)

theorem toNat_binToDec_bcd {v : Nat} (hv : v < 100) : (binToDec (bcd v)).toUInt32.toNat = v := by
  revert v
  decide

def hourRegister (is24h : Bool) (hour : Nat) : UInt8 :=
  if is24h then bcd hour
  else bcd (if hour % 12 = 0 then 12 else hour % 12) ||| if 12 ≤ hour then rtcPmBit else 0

theorem toNat_hourOf (is24h : Bool) {hour : Nat} (hhour : hour < 24) :
    (hourOf (hourRegister is24h hour) is24h).toNat = hour := by
  revert hour
  cases is24h <;> decide

/-- The registers of the clock show a date and time. The status registers may have any value otherwise. -/
structure Shows (cmos : Cmos) (is24h : Bool) (d : Date) : Prop where
  format : ∀ t, decide (cmos t rtcStatusRegisterB &&& rtcClockFormatBit ≠ 0) = is24h
  century : ∀ t, cmos t rtcCenturyRegister = bcd (d.year.toNat / 100)
  year : ∀ t, cmos t rtcYearRegister = bcd (d.year.toNat % 100)
  month : ∀ t, cmos t rtcMonthRegister = bcd d.month.toNat
  day : ∀ t, cmos t rtcDayRegister = bcd d.day.toNat
  hour : ∀ t, cmos t rtcHourRegister = hourRegister is24h d.hour.toNat
  minute : ∀ t, cmos t rtcMinuteRegister = bcd d.minute.toNat
  second : ∀ t, cmos t rtcSecondRegister = bcd d.second.toNat

/-! ### The formula in 32-bit words -/

section Formula

variable {a b year month day : UInt32}

theorem toNat_add_eq (hlt : a.toNat + b.toNat < 2 ^ 32) : (a + b).toNat = a.toNat + b.toNat := by
  rw [UInt32.toNat_add]
  exact Nat.mod_eq_of_lt hlt

theorem toNat_mul_eq (hlt : a.toNat * b.toNat < 2 ^ 32) : (a * b).toNat = a.toNat * b.toNat := by
  rw [UInt32.toNat_mul]
  exact Nat.mod_eq_of_lt hlt

theorem toNat_yearOfEra (year : UInt32) : (year - year / 400 * 400).toNat = year.toNat % 400 := by
  have hlt := year.toNat_lt
  have hera : (year / 400).toNat = year.toNat / 400 := UInt32.toNat_div _ _
  have hprod : (year / 400 * 400).toNat = year.toNat / 400 * 400 := by
    rw [toNat_mul_eq (show (year / 400).toNat * 400 < 2 ^ 32 by omega), hera]
    rfl
  rw [UInt32.toNat_sub_of_le _ _ (UInt32.le_iff_toNat_le.mpr (by omega)), hprod]
  omega

theorem toNat_dayOfYear {month : UInt32} (hmonth : month.toNat ≤ 11) (hday : 1 ≤ day.toNat) (hday' : day.toNat ≤ 31) :
    ((153 * month + 2) / 5 + day - 1).toNat = (153 * month.toNat + 2) / 5 + day.toNat - 1 := by
  have hprod : (153 * month).toNat = 153 * month.toNat := toNat_mul_eq (show 153 * month.toNat < 2 ^ 32 by omega)
  have hsum : (153 * month + 2).toNat = 153 * month.toNat + 2 := by
    rw [toNat_add_eq (show (153 * month).toNat + 2 < 2 ^ 32 by omega), hprod]
    rfl
  have hquot : ((153 * month + 2) / 5).toNat = (153 * month.toNat + 2) / 5 := by
    rw [UInt32.toNat_div, hsum]
    rfl
  have hadd : ((153 * month + 2) / 5 + day).toNat = (153 * month.toNat + 2) / 5 + day.toNat := by
    rw [toNat_add_eq (by omega), hquot]
  have hone : (1 : UInt32).toNat = 1 := rfl
  rw [UInt32.toNat_sub_of_le _ _ (UInt32.le_iff_toNat_le.mpr (by omega)), hadd, hone]

theorem toNat_days {days : UInt32} (hyear : 1999 ≤ year.toNat) (hyear' : year.toNat ≤ 2105) (hdays : days.toNat ≤ 367) :
    (year / 400 * 146097 + ((year - year / 400 * 400) * 365 + (year - year / 400 * 400) / 4
        - (year - year / 400 * 400) / 100 + days) - 719468).toNat
      = year.toNat * 365 + year.toNat / 4 - year.toNat / 100 + year.toNat / 400 + days.toNat - 719468 := by
  have hyoe := toNat_yearOfEra year
  generalize year - year / 400 * 400 = yoe at hyoe ⊢
  have hera : (year / 400).toNat = year.toNat / 400 := UInt32.toNat_div _ _
  have heras : (year / 400 * 146097).toNat = year.toNat / 400 * 146097 := by
    rw [toNat_mul_eq (show (year / 400).toNat * 146097 < 2 ^ 32 by omega), hera]
    rfl
  have hyears : (yoe * 365).toNat = year.toNat % 400 * 365 := by
    rw [toNat_mul_eq (show yoe.toNat * 365 < 2 ^ 32 by omega), hyoe]
    rfl
  have hfour : (yoe / 4).toNat = year.toNat % 400 / 4 := by rw [UInt32.toNat_div, hyoe]; rfl
  have hhundred : (yoe / 100).toNat = year.toNat % 400 / 100 := by rw [UInt32.toNat_div, hyoe]; rfl
  have hleaps : (yoe * 365 + yoe / 4).toNat = year.toNat % 400 * 365 + year.toNat % 400 / 4 := by
    rw [toNat_add_eq (by omega), hyears, hfour]
  have hwithout : (yoe * 365 + yoe / 4 - yoe / 100).toNat
      = year.toNat % 400 * 365 + year.toNat % 400 / 4 - year.toNat % 400 / 100 := by
    rw [UInt32.toNat_sub_of_le _ _ (UInt32.le_iff_toNat_le.mpr (by omega)), hleaps, hhundred]
  have hdoe : (yoe * 365 + yoe / 4 - yoe / 100 + days).toNat
      = year.toNat % 400 * 365 + year.toNat % 400 / 4 - year.toNat % 400 / 100 + days.toNat := by
    rw [toNat_add_eq (by omega), hwithout]
  have hall : (year / 400 * 146097 + (yoe * 365 + yoe / 4 - yoe / 100 + days)).toNat = year.toNat / 400 * 146097
      + (year.toNat % 400 * 365 + year.toNat % 400 / 4 - year.toNat % 400 / 100 + days.toNat) := by
    rw [toNat_add_eq (by omega), heras, hdoe]
  have hepoch : (719468 : UInt32).toNat = 719468 := rfl
  rw [UInt32.toNat_sub_of_le _ _ (UInt32.le_iff_toNat_le.mpr (by omega)), hall, hepoch]
  have hsplit : year.toNat = 400 * (year.toNat / 400) + year.toNat % 400 := (Nat.div_add_mod _ _).symm
  have hfours : year.toNat / 4 = 100 * (year.toNat / 400) + year.toNat % 400 / 4 := by omega
  have hhundreds : year.toNat / 100 = 4 * (year.toNat / 400) + year.toNat % 400 / 100 := by omega
  omega

theorem toNat_dayOfEpoch (hyear : 2000 ≤ year.toNat) (hyear' : year.toNat ≤ 2105) (hmonth : 1 ≤ month.toNat)
    (hmonth' : month.toNat ≤ 12) (hday : 1 ≤ day.toNat) (hday' : day.toNat ≤ 31) :
    ((dayOfEpoch year month day).toNat : Int) = dayNumber year.toNat month.toNat day.toNat := by
  rw [dayNumber_eq_marchDays]
  unfold dayOfEpoch marchDays
  dsimp only
  by_cases hearly : month ≤ 2
  · have hearly' : month.toNat ≤ 2 := UInt32.le_iff_toNat_le.mp hearly
    have hshift : (month + 9).toNat = month.toNat + 9 := toNat_add_eq (show month.toNat + 9 < 2 ^ 32 by omega)
    have hprev : (year - 1).toNat = year.toNat - 1 :=
      UInt32.toNat_sub_of_le _ _ (UInt32.le_iff_toNat_le.mpr (show 1 ≤ year.toNat by omega))
    have hdoy := toNat_dayOfYear (show (month + 9).toNat ≤ 11 by omega) hday hday'
    rw [if_pos hearly, if_neg (UInt32.not_lt.mpr hearly), if_pos (by omega), if_neg (by omega),
      toNat_days (by omega) (by omega) (by omega), hdoy, hshift, hprev]
    omega
  · have hlate := UInt32.not_le.mp hearly
    have hlate' : 2 < month.toNat := UInt32.lt_iff_toNat_lt.mp hlate
    have hshift : (month + -3).toNat = month.toNat - 3 := by
      rw [UInt32.toNat_add]
      change (month.toNat + 4294967293) % 4294967296 = _
      omega
    have hsame : year - 0 = year := UInt32.sub_zero year
    have hdoy := toNat_dayOfYear (show (month + -3).toNat ≤ 11 by omega) hday hday'
    rw [if_neg hearly, if_pos hlate, if_neg (by omega), if_pos (by omega), hsame,
      toNat_days (by omega) (by omega) (by omega), hdoy, hshift]
    omega

end Formula

section Reading

variable {cmos : Cmos} {is24h : Bool} {d : Date}

theorem cmos_bind {α β : Type} (prog : CmosM α) (rest : α → CmosM β) (t : Nat) :
    (prog >>= rest) t = rest (prog t).1 (prog t).2 := rfl

theorem Shows.toNat_getYearStartup (hshows : Shows cmos is24h d) (hyear : 2000 ≤ d.year.toNat) (hyear' : d.year.toNat ≤ 2105)
    (t : Nat) : (getYearStartup cmos t).1.toNat = d.year.toNat := by
  have hcentury := toNat_binToDec_bcd (show d.year.toNat / 100 < 100 by omega)
  have hrest := toNat_binToDec_bcd (show d.year.toNat % 100 < 100 by omega)
  have hcentury' : (binToDec (bcd (d.year.toNat / 100))).toNat = d.year.toNat / 100 := by
    rwa [UInt8.toNat_toUInt32] at hcentury
  have hknown : ¬ (binToDec (bcd (d.year.toNat / 100)) < 20 ∨ 21 < binToDec (bcd (d.year.toNat / 100))) := by
    rw [UInt8.lt_iff_toNat_lt, UInt8.lt_iff_toNat_lt, hcentury']
    change ¬ (d.year.toNat / 100 < 20 ∨ 21 < d.year.toNat / 100)
    omega
  unfold getYearStartup
  simp only [cmos_bind, cmosRead, hshows.century, hshows.year, if_neg hknown]
  change ((binToDec (bcd (d.year.toNat / 100))).toUInt32 * 100 + (binToDec (bcd (d.year.toNat % 100))).toUInt32).toNat = _
  have hprod : ((binToDec (bcd (d.year.toNat / 100))).toUInt32 * 100).toNat = d.year.toNat / 100 * 100 := by
    rw [toNat_mul_eq (by rw [hcentury]; change d.year.toNat / 100 * 100 < 2 ^ 32; omega), hcentury]
    rfl
  rw [toNat_add_eq (by omega), hprod, hrest]
  omega

theorem Shows.getSecondsStartup_eq (hshows : Shows cmos is24h d) (t : Nat) : ∃ t',
    (getSecondsStartup cmos t).1 =
      dayOfEpoch (getYearStartup cmos t').1 (binToDec (bcd d.month.toNat)).toUInt32
          (binToDec (bcd d.day.toNat)).toUInt32 * 86400 +
        hourOf (hourRegister is24h d.hour.toNat) is24h * 3600 + (binToDec (bcd d.minute.toNat)).toUInt32 * 60 +
        (binToDec (bcd d.second.toNat)).toUInt32 := by
  unfold getSecondsStartup
  simp only [cmos_bind, cmosRead, hshows.month, hshows.day, hshows.hour, hshows.minute, hshows.second]
  generalize (waitForUpdate cmos rtcWaitTime t).2 = waited
  obtain rfl := hshows.format waited
  exact ⟨waited + 1, rfl⟩

theorem Shows.toNat_getSecondsStartup (hshows : Shows cmos is24h d) (hvalid : d.Valid) (hyear : 2000 ≤ d.year.toNat)
    (hyear' : d.year.toNat ≤ 2105) (t : Nat) : ((getSecondsStartup cmos t).1.toNat : Int) = d.seconds := by
  obtain ⟨hmonthPos, hmonthLe, hdayPos, hdayLe⟩ := hvalid.date
  have hdayLe' : monthDays d.year.toNat (d.month.toNat - 1) ≤ 31 := by
    unfold monthDays
    split_ifs <;> omega
  have hhourLt := hvalid.hour
  have hminuteLt := hvalid.minute
  have hsecondLt := hvalid.second
  obtain ⟨t', hrun⟩ := hshows.getSecondsStartup_eq t
  have hy := hshows.toNat_getYearStartup hyear hyear' t'
  have hm := toNat_binToDec_bcd (show d.month.toNat < 100 by omega)
  have hd := toNat_binToDec_bcd (show d.day.toNat < 100 by omega)
  have hh := toNat_hourOf is24h hhourLt
  have hmin := toNat_binToDec_bcd (show d.minute.toNat < 100 by omega)
  have hs := toNat_binToDec_bcd (show d.second.toNat < 100 by omega)
  rw [hrun]
  generalize (getYearStartup cmos t').1 = y at hy ⊢
  generalize (binToDec (bcd d.month.toNat)).toUInt32 = m at hm ⊢
  generalize (binToDec (bcd d.day.toNat)).toUInt32 = day at hd ⊢
  generalize hourOf (hourRegister is24h d.hour.toNat) is24h = h at hh ⊢
  generalize (binToDec (bcd d.minute.toNat)).toUInt32 = min at hmin ⊢
  generalize (binToDec (bcd d.second.toNat)).toUInt32 = s at hs ⊢
  have hdays := toNat_dayOfEpoch (show 2000 ≤ y.toNat by omega) (by omega) (show 1 ≤ m.toNat by omega) (by omega)
    (show 1 ≤ day.toNat by omega) (by omega)
  rw [hy, hm, hd] at hdays
  -- The last day of 2105 is day 49672.
  have hlast : dayNumber d.year.toNat d.month.toNat d.day.toNat < 49673 := by
    calc _ < dayNumber (d.year.toNat + 1 : Nat) 1 1 := hvalid.date.mem_year.2
      _ ≤ dayNumber (2106 : Nat) 1 1 := dayNumber_newYear_mono (by omega)
      _ = 49673 := by decide
  have hdaySecs : (dayOfEpoch y m day * 86400).toNat = (dayOfEpoch y m day).toNat * 86400 :=
    toNat_mul_eq (show (dayOfEpoch y m day).toNat * 86400 < 2 ^ 32 by omega)
  have hhourSecs : (h * 3600).toNat = h.toNat * 3600 := toNat_mul_eq (show h.toNat * 3600 < 2 ^ 32 by omega)
  have hminSecs : (min * 60).toNat = min.toNat * 60 := toNat_mul_eq (show min.toNat * 60 < 2 ^ 32 by omega)
  have hhours : (dayOfEpoch y m day * 86400 + h * 3600).toNat = (dayOfEpoch y m day).toNat * 86400 + h.toNat * 3600 := by
    rw [toNat_add_eq (by omega), hdaySecs, hhourSecs]
  have hmins : (dayOfEpoch y m day * 86400 + h * 3600 + min * 60).toNat
      = (dayOfEpoch y m day).toNat * 86400 + h.toNat * 3600 + min.toNat * 60 := by
    rw [toNat_add_eq (by omega), hhours, hminSecs]
  rw [toNat_add_eq (by omega), hmins, Date.seconds, ← hdays, hh, hmin, hs]
  push_cast
  rfl

end Reading

/-! ### There and back -/

theorem Date.Valid.unique {d d' : Date} (hvalid : d.Valid) (hvalid' : d'.Valid) (hseconds : d.seconds = d'.seconds)
    (hmillis : d.millisecond = d'.millisecond) : d = d' := by
  have hhour := hvalid.hour
  have hminute := hvalid.minute
  have hsecond := hvalid.second
  have hhour' := hvalid'.hour
  have hminute' := hvalid'.minute
  have hsecond' := hvalid'.second
  unfold Date.seconds at hseconds
  obtain ⟨hy, hm, hd⟩ := hvalid.date.unique hvalid'.date (by omega)
  rw [hy, hm, hd] at hseconds
  have hh : d.hour = d'.hour := UInt64.toNat_inj.mp (by omega)
  have hmin : d.minute = d'.minute := UInt64.toNat_inj.mp (by omega)
  have hs : d.second = d'.second := UInt64.toNat_inj.mp (by omega)
  obtain ⟨year, month, day, hour, minute, second, millisecond⟩ := d
  obtain ⟨year', month', day', hour', minute', second', millisecond'⟩ := d'
  simp only [Date.mk.injEq]
  exact ⟨UInt64.toNat_inj.mp hy, UInt64.toNat_inj.mp hm, UInt64.toNat_inj.mp hd, hh, hmin, hs, hmillis⟩

/-- **Clock and calendar are inverse.** For every number of milliseconds `epoch_to_date` returns a valid date and time
of day whose seconds, by the formula in unbounded integers, are those of the given time, and the array of month lengths
is as before. The date that a clock shows at startup, in a year up to 2105, is returned for the startup time. -/
theorem clock_calendar_inverse :
    (∀ x : UInt64, ∃ d : Date, epochToDate daysPerMonth x = some (d, daysPerMonth) ∧ d.Valid ∧
      d.seconds = x.toNat / 1000 ∧ d.millisecond.toNat = x.toNat % 1000) ∧
    ∀ (cmos : Cmos) (is24h : Bool) (d : Date) (t : Nat), Shows cmos is24h d → d.Valid → d.millisecond = 0 →
      2000 ≤ d.year.toNat → d.year.toNat ≤ 2105 →
      epochToDate daysPerMonth (1000 * (getSecondsStartup cmos t).1.toUInt64) = some (d, daysPerMonth) := by
  refine ⟨epochToDate_spec, fun cmos is24h d t hshows hvalid hmillis hyear hyear' => ?_⟩
  have hseconds := hshows.toNat_getSecondsStartup hvalid hyear hyear' t
  have hlt := (getSecondsStartup cmos t).1.toNat_lt
  have hx : (1000 * (getSecondsStartup cmos t).1.toUInt64).toNat = 1000 * (getSecondsStartup cmos t).1.toNat := by
    rw [UInt64.toNat_mul, UInt32.toNat_toUInt64]
    exact Nat.mod_eq_of_lt (show 1000 * (getSecondsStartup cmos t).1.toNat < 2 ^ 64 by omega)
  obtain ⟨d', hrun, hvalid', hseconds', hmillis'⟩ :=
    epochToDate_spec (1000 * (getSecondsStartup cmos t).1.toUInt64)
  rw [hx] at hseconds' hmillis'
  rw [hrun]
  have hsame : d' = d := by
    apply hvalid'.unique hvalid
    · omega
    · rw [hmillis]
      apply UInt64.toNat_inj.mp
      rw [hmillis', Nat.mul_mod_right]
      rfl
  rw [hsame]

def midnight : Date := ⟨2000, 2, 29, 0, 0, 0, 0⟩

def midnightCmos : Cmos := fun _ reg =>
  if reg = rtcCenturyRegister then 0x20
  else if reg = rtcMonthRegister then 0x02
  else if reg = rtcDayRegister then 0x29
  else if reg = rtcHourRegister then 0x12
  else 0

theorem clock_calendar_inverse_midnight :
    epochToDate daysPerMonth (1000 * (getSecondsStartup midnightCmos 0).1.toUInt64) = some (midnight, daysPerMonth) := by
  have hformat : decide (midnightCmos 0 rtcStatusRegisterB &&& rtcClockFormatBit ≠ 0) = false := by decide
  have hshows : Shows midnightCmos false midnight :=
    ⟨fun _ => hformat, fun _ => rfl, fun _ => rfl, fun _ => rfl, fun _ => rfl, fun _ => rfl, fun _ => rfl, fun _ => rfl⟩
  have hvalid : midnight.Valid :=
    ⟨⟨by decide, by decide, by decide, by decide⟩, by decide, by decide, by decide, by decide⟩
  exact clock_calendar_inverse.2 midnightCmos false midnight 0 hshows hvalid rfl (by decide) (by decide)

end DeprecatOS
