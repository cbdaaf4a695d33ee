/-!
# The calendar

Days are counted from the first of January of year 1, which is day zero,
in the Gregorian calendar extended backwards. A cycle of 400 years has
146097 days, a century of it 36524, four years 1461, one year 365, and
the last of each four gets what is left over.
-/

namespace Conduit

structure Date where
  year : Nat
  month : Nat
  day : Nat
  deriving DecidableEq, Repr, Inhabited

namespace Date

def isLeap (year : Nat) : Bool := year % 4 = 0 && (year % 100 ≠ 0 || year % 400 = 0)

def monthLengths (leap : Bool) : List Nat :=
  [31, if leap then 29 else 28, 31, 30, 31, 30, 31, 31, 30, 31, 30, 31]

/-- The number of days before a year, for years from 1 on. -/
def daysBeforeYear (year : Nat) : Nat :=
  let before := year - 1
  before * 365 + before / 4 - before / 100 + before / 400

/-- The number of days in the months before one. -/
def daysBeforeMonth (leap : Bool) (month : Nat) : Nat :=
  ((monthLengths leap).take (month - 1)).foldl (· + ·) 0

/-- The day of the count that a date is. -/
def toDays (d : Date) : Nat :=
  daysBeforeYear d.year + daysBeforeMonth (isLeap d.year) d.month + (d.day - 1)

/-- Month and day of a day of the year, both from the month given on. -/
def monthDay (month : Nat) : List Nat → Nat → Nat × Nat
  | [], n => (month, n + 1)
  | length :: rest, n =>
    if n < length then (month, n + 1) else monthDay (month + 1) rest (n - length)

/-- The date of a day of the count. -/
def ofDays (n : Nat) : Date :=
  let cycle := n % 146097
  let century := min 3 (cycle / 36524)
  let inCentury := cycle - century * 36524
  let inFour := inCentury % 1461
  let single := min 3 (inFour / 365)
  let year := n / 146097 * 400 + century * 100 + inCentury / 1461 * 4 + single + 1
  let (month, day) := monthDay 1 (monthLengths (isLeap year)) (inFour - single * 365)
  ⟨year, month, day⟩

def lastYear : Nat := 9999

/-! ## Weeks

Weeks begin on Monday; the first week of a year is the one with its first
Thursday. -/

/-- The weekday of a day of the count, Monday being zero. -/
def weekday (n : Nat) : Nat := n % 7

/-- How far the Monday of a year's first week lies from its first day. -/
def firstMondayOffset (year : Nat) : Int :=
  let first := weekday (daysBeforeYear year)
  if 3 < first then 7 - first else -first

/-- Whether a year has a week of this number. -/
def hasWeek (year week : Nat) : Bool :=
  (1 ≤ week && week ≤ 52) ||
    (week = 53 &&
      let first := weekday (daysBeforeYear year)
      first = 3 || (first = 2 && isLeap year))

/-- The day of the count of a weekday in a week, both from 1 on. -/
def dayOfWeek (year week day : Nat) : Int :=
  daysBeforeYear year + firstMondayOffset year + ((week : Int) - 1) * 7 + ((day : Int) - 1)

end Date

end Conduit
