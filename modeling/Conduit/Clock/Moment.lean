import Conduit.Clock.Calendar
import Conduit.Limit

/-!
# Moments

A moment is a reading of a clock: a date and a time of day to the
microsecond, with the offset of the clock from universal time if that is
known. A clock of unknown offset is taken to show universal time.
-/

namespace Conduit

structure Moment where
  /-- Microseconds since the start of year 1, as the clock shows them. -/
  ticks : Nat
  /-- Microseconds by which the clock is ahead of universal time. -/
  offset : Option Int
  deriving DecidableEq, Repr, Inhabited

namespace Moment

def ticksPerSecond : Nat := 1000000

def ticksPerDay : Nat := 86400 * ticksPerSecond

/-- The first moment after the calendar. -/
def endOfTime : Nat := Date.daysBeforeYear (Date.lastYear + 1) * ticksPerDay

/-- A number in decimal, padded with zeros on the left. -/
def padded (width n : Nat) : String :=
  let digits := toString n
  String.ofList (List.replicate (width - digits.length) '0') ++ digits

def date (m : Moment) : Date := Date.ofDays (m.ticks / ticksPerDay)

def timeText (m : Moment) : String :=
  let seconds := m.ticks % ticksPerDay / ticksPerSecond
  padded 2 (seconds / 3600) ++ ":" ++ padded 2 (seconds / 60 % 60) ++ ":" ++ padded 2 (seconds % 60)

def fraction (m : Moment) : Nat := m.ticks % ticksPerSecond

/-- The moment in universal time; an error if that leaves the calendar. -/
def universal (m : Moment) : Except Limit Moment :=
  let ticks := (m.ticks : Int) - m.offset.getD 0
  if 0 ≤ ticks ∧ ticks < endOfTime then .ok ⟨ticks.toNat, some 0⟩ else .error .dateOutOfRange

/-- A moment of universal time to the millisecond, rounded down. -/
def stamp (m : Moment) : String :=
  let d := m.date
  toString d.year ++ "-" ++ padded 2 d.month ++ "-" ++ padded 2 d.day ++ "T" ++ m.timeText ++ "." ++
    padded 3 (m.fraction / 1000) ++ "Z"

def now (m : Moment) : Except Limit String := m.universal.map stamp

/-! ## ISO form -/

/-- Microseconds after the point, if there are any. -/
def fractionText (n : Nat) : String := if n = 0 then "" else "." ++ padded 6 n

def offsetText (offset : Int) : String :=
  let n := offset.natAbs
  let seconds := n / ticksPerSecond
  let fine := if n % (60 * ticksPerSecond) = 0 then "" else
    ":" ++ padded 2 (seconds % 60) ++ fractionText (n % ticksPerSecond)
  (if offset < 0 then "-" else "+") ++ padded 2 (seconds / 3600) ++ ":" ++
    padded 2 (seconds / 60 % 60) ++ fine

/-- Date, time and offset of a moment. -/
def iso (m : Moment) : String :=
  let d := m.date
  padded 4 d.year ++ "-" ++ padded 2 d.month ++ "-" ++ padded 2 d.day ++ "T" ++ m.timeText ++
    fractionText m.fraction ++ (m.offset.map offsetText).getD ""

end Moment

end Conduit
