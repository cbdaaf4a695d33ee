/-!
# Numeric and calendar limits

Integers here have any size, but not every operation takes every
integer: a double has a largest finite value, a decimal numeral a
longest accepted length, the calendar a last year. Each way of running
past such a bound is one cause, worded in one place.
-/

namespace Conduit

/-- A bound that an operation on numbers or dates ran past. -/
inductive Limit where
  /-- An integer that has to become a double is beyond the largest one. -/
  | intTooLarge
  /-- The quotient of two integers is beyond the largest double. -/
  | quotientTooLarge
  /-- A numeral that is read has this many digits, too many. -/
  | longNumeral (digits : Nat)
  /-- An integer that is written has too many digits. -/
  | longInteger
  /-- An instant leaves the years 1 to 9999 when moved to another offset. -/
  | dateOutOfRange
  deriving DecidableEq, Repr

namespace Limit

/-- The longest decimal numeral that is read or written, in digits. -/
def numeralDigits : Nat := 4300

def message : Limit → String
  | .intTooLarge => "int too large to convert to float"
  | .quotientTooLarge => "integer division result too large for a float"
  | .longNumeral n =>
    "Exceeds the limit (4300 digits) for integer string conversion: value has " ++ toString n ++
      " digits; use sys.set_int_max_str_digits() to increase the limit"
  | .longInteger =>
    "Exceeds the limit (4300 digits) for integer string conversion; " ++
      "use sys.set_int_max_str_digits() to increase the limit"
  | .dateOutOfRange => "date value out of range"

end Limit

end Conduit
