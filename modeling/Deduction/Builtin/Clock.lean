import Deduction.Decimal.Binary

/-!
# Dates

A moment is a count of milliseconds since the start of 1970, read in local time and in the Gregorian calendar, which
is continued before its introduction. Years range from -262143 to 262142; a moment outside them has no date.
-/

namespace Deduction.Clock

structure Date where
  year : Int
  month : Nat
  day : Nat
  deriving DecidableEq

def isLeapYear (year : Int) : Bool := year % 4 = 0 && (year % 100 ≠ 0 || year % 400 = 0)

def daysInMonth (year : Int) : Nat → Nat
  | 2 => if isLeapYear year then 29 else 28
  | 4 | 6 | 9 | 11 => 30
  | _ => 31

def yearInRange (year : Int) : Bool := -262143 ≤ year && year ≤ 262142

/-- Days since the start of 1970. The year is counted from March, so that a leap day ends its year. -/
def daysOfDate (date : Date) : Int :=
  let year := if date.month ≤ 2 then date.year - 1 else date.year
  let era := year / 400
  let yearOfEra := year - era * 400
  let monthFromMarch := (date.month + 9) % 12
  let dayOfYear := (153 * monthFromMarch + 2) / 5 + date.day - 1
  let dayOfEra := yearOfEra * 365 + yearOfEra / 4 - yearOfEra / 100 + (dayOfYear : Int)
  era * 146097 + dayOfEra - 719468

/-- The date that is some days after the start of 1970. -/
def dateOfDays (days : Int) : Date :=
  let shifted := days + 719468
  let era := shifted / 146097
  let dayOfEra := shifted - era * 146097
  let yearOfEra := (dayOfEra - dayOfEra / 1460 + dayOfEra / 36524 - dayOfEra / 146096) / 365
  let dayOfYear := dayOfEra - (365 * yearOfEra + yearOfEra / 4 - yearOfEra / 100)
  let monthFromMarch := (5 * dayOfYear + 2) / 153
  let day := dayOfYear - (153 * monthFromMarch + 2) / 5 + 1
  let month := if monthFromMarch < 10 then monthFromMarch + 3 else monthFromMarch - 9
  let year := yearOfEra + era * 400 + if month ≤ 2 then 1 else 0
  ⟨year, month.toNat, day.toNat⟩

/-- How local clocks go. Moments are seconds since the start of 1970; a local time is told as the moment at which a
clock of Universal Time shows it. -/
structure Zone where
  /-- How many seconds local clocks are ahead at a moment. -/
  ahead : Int → Int
  /-- The first moment at which clocks show a local time. They pass over some when they are put forward. -/
  earliest : Int → Option Int
  shows {time moment : Int} : earliest time = some moment → moment + ahead moment = time
  first {time moment other : Int} : earliest time = some moment → other + ahead other = time → moment ≤ other

/-- Universal Time. -/
def Zone.universal : Zone where
  ahead _ := 0
  earliest := some
  shows h := by rw [Option.some.inj h, Int.add_zero]
  first h hother := Int.le_of_eq ((Option.some.inj h).symm.trans (hother.symm.trans (Int.add_zero _)))

instance : Inhabited Zone := ⟨.universal⟩

/-- An integer brought into a range. -/
def clamp (low high n : Int) : Int := max low (min high n)

/-- The integer part of a number, brought into the range of unsigned 32-bit words. -/
def toField (x : Float) : Nat := (clamp 0 (powerOfTwo 32 - 1) (Binary.truncate x)).toNat

/-- Milliseconds of a date and a time of day, given as numbers whose fractions are dropped; `none` if there is no
such moment. -/
def millisOf (zone : Zone) (year month day hour minute second : Float) : Option Int :=
  if [year, month, day, hour, minute, second].all Float.isFinite then
    let date : Date := ⟨clamp (-powerOfTwo 31) (powerOfTwo 31 - 1) (Binary.truncate year), toField month, toField day⟩
    let h := toField hour
    let m := toField minute
    let s := toField second
    if yearInRange date.year && 1 ≤ date.month && date.month ≤ 12 && 1 ≤ date.day &&
        date.day ≤ daysInMonth date.year date.month && h < 24 && m < 60 && s < 60 then
      (zone.earliest (daysOfDate date * 86400 + (3600 * h + 60 * m + s : Nat))).map (· * 1000)
    else none
  else none

/-- A part of a date or of a time of day. -/
inductive Part where
  | year
  | month
  | date
  | hour
  | minute
  | second
  deriving DecidableEq

def Part.ofName? (name : String) : Option Part :=
  match name with
  | "getyear" => some year
  | "getmonth" => some month
  | "getdate" => some date
  | "gethour" => some hour
  | "getminute" => some minute
  | "getsecond" => some second
  | _ => none

/-- A part of the moment that is some milliseconds after the start of 1970. -/
def Part.of (part : Part) (zone : Zone) (millis : Float) : Option Int :=
  if millis.isFinite then
    let moment := clamp (-powerOfTwo 63) (powerOfTwo 63 - 1) (Binary.truncate millis) / 1000
    let shown := moment + zone.ahead moment
    let date := dateOfDays (shown / 86400)
    let time := shown % 86400
    if yearInRange (dateOfDays (moment / 86400)).year then
      some <| match part with
        | .year => date.year
        | .month => date.month
        | .date => date.day
        | .hour => time / 3600
        | .minute => time / 60 % 60
        | .second => time % 60
    else none
  else none

end Deduction.Clock
