import GanttChart.Day.Basic

/-! Years, months and days of the month. The count starts years in March, so that the leap day is
the last of its year and the lengths of the months before it do not depend on the year. -/

namespace GanttChart

structure Civil where
  year : Int
  month : Nat
  day : Nat
  deriving DecidableEq

namespace Civil

def isLeap (year : Int) : Bool := year % 4 == 0 && (year % 100 != 0 || year % 400 == 0)

def monthLength (year : Int) (month : Nat) : Nat :=
  if month = 2 then (if isLeap year then 29 else 28)
  else if month = 4 ∨ month = 6 ∨ month = 9 ∨ month = 11 then 30
  else 31

def isValid (c : Civil) : Bool :=
  1 ≤ c.month && c.month ≤ 12 && 1 ≤ c.day && c.day ≤ monthLength c.year c.month

/-- Days before a year that starts in March, counted from the year 0. -/
def daysBeforeYear (year : Int) : Int := 365 * year + year / 4 - year / 100 + year / 400

/-- Days before the `index`-th month of a year that starts in March. -/
def daysBeforeMonth (index : Nat) : Nat := (153 * index + 2) / 5

/-- The number of a date, counted from 1970-01-01. -/
def number (c : Civil) : Int :=
  let year := if c.month ≤ 2 then c.year - 1 else c.year
  let index := if c.month ≤ 2 then c.month + 9 else c.month - 3
  daysBeforeYear year + daysBeforeMonth index + c.day - 1 - 719468

/-- The date with the given number. Four centuries have 146097 days, a century has 36524, four years
have 1461 and a year has 365; the last part of each kind takes the day that is left over. -/
def ofNumber (n : Int) : Civil :=
  let era := (n + 719468) / 146097
  let inEra := ((n + 719468) % 146097).toNat
  let century := min 3 (inEra / 36524)
  let inCentury := inEra - 36524 * century
  let cycle := inCentury / 1461
  let inCycle := inCentury - 1461 * cycle
  let inFour := min 3 (inCycle / 365)
  let inYear := inCycle - 365 * inFour
  let year : Int := 400 * era + 100 * century + 4 * cycle + inFour
  let index := (5 * inYear + 2) / 153
  { year := if index < 10 then year else year + 1
    month := if index < 10 then index + 3 else index - 9
    day := inYear - daysBeforeMonth index + 1 }

end Civil

namespace Day

def civil (d : Day) : Civil := Civil.ofNumber d.number

/-- The day of a date, when the calendar has that date and it is in range. -/
def ofCivil? (c : Civil) : Option Day := if c.isValid then ofNumber? c.number else none

/-- The day of a date of the calendar; years are counted with a year zero. -/
def ofDate? (year : Int) (month day : Nat) : Option Day := ofCivil? ⟨year, month, day⟩

def year (d : Day) : Int := d.civil.year
def month (d : Day) : Nat := d.civil.month
def dayOfMonth (d : Day) : Nat := d.civil.day

/-- Days left in the month, the day itself included. Where the next month starts beyond the last
day of the range, only the day itself is left. -/
def remainingInMonth (d : Day) : Int :=
  let next := if d.month = 12 then ofDate? (d.year + 1) 1 1 else ofDate? d.year (d.month + 1) 1
  match next with
  | some e => d.distance e
  | none => 1

end Day

end GanttChart
