import Mathlib.Data.Int.Basic

/-!
# The calendar

Days and seconds of the proleptic Gregorian calendar, counted from the start of
1970.  There is a year 0, and years before it are negative.
-/

namespace OracleMachine.Lib.Calendar

def isLeap (year : Int) : Bool := year % 4 = 0 && (year % 100 ≠ 0 || year % 400 = 0)

/-- The days of a month; the months are 1 to 12. -/
def daysInMonth (year : Int) (month : Nat) : Nat :=
  match month with
  | 2 => if isLeap year then 29 else 28
  | 4 | 6 | 9 | 11 => 30
  | 1 | 3 | 5 | 7 | 8 | 10 | 12 => 31
  | _ => 0

/-- The days of a year in front of a month. -/
def daysBeforeMonth (year : Int) : Nat → Nat
  | 0 => 0
  | month + 1 => daysBeforeMonth year month + daysInMonth year month

/-- The days from the start of the year 0 to the start of a year.  The last
three terms count the leap years in between. -/
def daysBeforeYear (year : Int) : Int :=
  365 * year + (year + 3) / 4 - (year + 99) / 100 + (year + 399) / 400

/-- The number of a day. -/
def dayNumber (year : Int) (month : Nat) (day : Int) : Int :=
  daysBeforeYear year - daysBeforeYear 1970 + daysBeforeMonth year month + (day - 1)

/-- The number of a second. -/
def unixSeconds (year : Int) (month : Nat) (day hour minute second : Int) : Int :=
  dayNumber year month day * 86400 + hour * 3600 + minute * 60 + second

theorem daysInMonth_le (year : Int) (month : Nat) : daysInMonth year month ≤ 31 := by
  unfold daysInMonth
  split
  · split <;> decide
  all_goals decide

theorem daysBeforeMonth_le (year : Int) (month : Nat) :
    daysBeforeMonth year month ≤ 31 * month := by
  induction month with
  | zero => exact Nat.le_refl 0
  | succ month ih =>
    have hle := daysInMonth_le year month
    rw [daysBeforeMonth]
    omega

example : unixSeconds 2000 2 29 12 0 0 = 951825600 := by decide

end OracleMachine.Lib.Calendar
