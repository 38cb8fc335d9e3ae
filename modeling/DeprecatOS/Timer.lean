/-!
# The time at startup

What `timerController.c` makes of the real-time clock. The clock is read one register at a time, and a register may have
another value each time it is read.
-/

namespace DeprecatOS

abbrev Cmos := Nat → UInt8 → UInt8

def rtcStatusRegisterA : UInt8 := 0x0A
def rtcStatusRegisterB : UInt8 := 0x0B
def rtcCenturyRegister : UInt8 := 0x32
def rtcYearRegister : UInt8 := 0x09
def rtcMonthRegister : UInt8 := 0x08
def rtcDayRegister : UInt8 := 0x07
def rtcHourRegister : UInt8 := 0x04
def rtcMinuteRegister : UInt8 := 0x02
def rtcSecondRegister : UInt8 := 0x00

def rtcPmBit : UInt8 := 0x80
def rtcClockFormatBit : UInt8 := 0x02
def rtcUpdateInProgressBit : UInt8 := 0x80

def rtcWaitTime : Nat := 1000000

def releaseYear : UInt8 := 26

abbrev CmosM := StateM Nat

def cmosRead (cmos : Cmos) (reg : UInt8) : CmosM UInt8 := fun t => (cmos t reg, t + 1)

def binToDec (bin : UInt8) : UInt8 := (bin &&& (0x0F : UInt8)) + (bin >>> (4 : UInt8)) * 10

def getYearStartup (cmos : Cmos) : CmosM UInt32 := do
  let century := binToDec (← cmosRead cmos rtcCenturyRegister)
  let year := binToDec (← cmosRead cmos rtcYearRegister)
  let century := if century < 20 ∨ 21 < century then if year < releaseYear then 21 else 20 else century
  pure (century.toUInt32 * 100 + year.toUInt32)

def waitForUpdate (cmos : Cmos) : Nat → CmosM Unit
  | 0 => do
      let _ ← cmosRead cmos rtcStatusRegisterA
  | left + 1 => do
      let status ← cmosRead cmos rtcStatusRegisterA
      if status &&& rtcUpdateInProgressBit ≠ 0 then waitForUpdate cmos left

def hourOf (rawHour : UInt8) (is24h : Bool) : UInt32 :=
  let hour := (binToDec (rawHour &&& ~~~ rtcPmBit)).toUInt32
  if rawHour &&& rtcPmBit ≠ 0 then hour % 12 + 12
  else if hour = 12 ∧ ¬ is24h then 0
  else hour

def dayOfEpoch (year month day : UInt32) : UInt32 :=
  let year := year - if month ≤ 2 then 1 else 0
  let era := year / 400
  let yearOfEra := year - era * 400
  -- The cast of -3 wraps around and so does the sum.
  let dayOfYear := (153 * (month + if 2 < month then -3 else 9) + 2) / 5 + day - 1
  let dayOfEra := yearOfEra * 365 + yearOfEra / 4 - yearOfEra / 100 + dayOfYear
  era * 146097 + dayOfEra - 719468

def getSecondsStartup (cmos : Cmos) : CmosM UInt32 := do
  waitForUpdate cmos rtcWaitTime
  let is24h : Bool := (← cmosRead cmos rtcStatusRegisterB) &&& rtcClockFormatBit ≠ 0
  let year ← getYearStartup cmos
  let month := (binToDec (← cmosRead cmos rtcMonthRegister)).toUInt32
  let day := (binToDec (← cmosRead cmos rtcDayRegister)).toUInt32
  let hour := hourOf (← cmosRead cmos rtcHourRegister) is24h
  let minute := (binToDec (← cmosRead cmos rtcMinuteRegister)).toUInt32
  let second := (binToDec (← cmosRead cmos rtcSecondRegister)).toUInt32
  pure (dayOfEpoch year month day * 86400 + hour * 3600 + minute * 60 + second)

end DeprecatOS
