import PrefixIntegral.Decimal.Binary
import PrefixIntegral.Text.Blank

/-!
Dates by the count of seconds since the year 2000 began. Leap years recur with a cycle of four
hundred years, and one begins with 2000, so a date is the remainder of a division by the length of
the cycle, walked off year by year and month by month.
-/

namespace PrefixIntegral.Calendar

def isLeap (year : Nat) : Bool := year % 4 = 0 && (year % 100 ≠ 0 || year % 400 = 0)

def daysOfYear (year : Nat) : Nat := if isLeap year then 366 else 365

def monthLengths (year : Nat) : List Nat :=
  [31, if isLeap year then 29 else 28, 31, 30, 31, 30, 31, 31, 30, 31, 30, 31]

/-- The year that holds a day counted from the first of a year, and the day counted from the
first of that year. -/
def splitYears (year day : Nat) : Nat × Nat :=
  if h : day < daysOfYear year then (year, day)
  else
    have : 0 < daysOfYear year := by unfold daysOfYear; split <;> decide
    splitYears (year + 1) (day - daysOfYear year)
  termination_by day

def splitMonths (month day : Nat) : List Nat → Nat × Nat
  | [] => (month, day)
  | length :: rest =>
    if day < length then (month, day) else splitMonths (month + 1) (day - length) rest

structure Moment where
  year : Nat
  month : Nat
  day : Nat
  hour : Nat
  minute : Nat
  second : Nat
  deriving DecidableEq, Repr

def cycleDays : Nat := 146097

def momentAt (seconds : Int) : Moment :=
  let days := seconds.fdiv 86400
  let time := (seconds.fmod 86400).toNat
  let (year, dayOfYear) := splitYears 2000 (days.fmod cycleDays).toNat
  let (month, day) := splitMonths 0 dayOfYear (monthLengths year)
  ⟨((year : Int) + 400 * days.fdiv cycleDays).toNat, month + 1, day + 1,
    time / 3600, time / 60 % 60, time % 60⟩

/-- The last whole second not after a time given in seconds, once it is rounded to microseconds;
a half goes to the even neighbour. -/
def wholeSecond (time : Float) : Int :=
  match Decimal.parts time with
  | .finite negative significand exponent =>
    let r := Decimal.ratio significand exponent
    let micros : Int := (Decimal.Ratio.mk (r.num * 1000000) r.den).round
    (if negative then -micros else micros).fdiv 1000000
  | _ => 0

def digits (width n : Nat) : Text := Text.padLeft width '0' (Nat.toDigits 10 n)

/-- Date and time of day as digits, with an underscore between them. The year has no needless
zeros. -/
def Moment.stamp (m : Moment) : Text :=
  digits 1 m.year ++ digits 2 m.month ++ digits 2 m.day ++ '_' ::
    (digits 2 m.hour ++ digits 2 m.minute ++ digits 2 m.second)

def Moment.write (m : Moment) : Text :=
  digits 1 m.year ++ '-' :: digits 2 m.month ++ '-' :: digits 2 m.day ++ ' ' ::
    digits 2 m.hour ++ ':' :: digits 2 m.minute ++ ':' :: digits 2 m.second

def stampAt (time : Float) : Text := (momentAt (wholeSecond time)).stamp

def writeAt (time : Float) : Text := (momentAt (wholeSecond time)).write

end PrefixIntegral.Calendar
