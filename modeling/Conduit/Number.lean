import Conduit.Limit
import Conduit.Number.Double

/-!
# Numbers

A number is an integer of any size or a double. Integers stay exact as
long as only integers meet; an operation with a double first turns the
integer into the nearest double, which is an error beyond the range of
doubles. Comparison never rounds: it is the order of the real numbers
that the two operands stand for.
-/

namespace Conduit

inductive Number where
  | int (n : Int)
  | double (x : Double)
  deriving DecidableEq, Repr, Inhabited

/-- A point of the real line with its two ends; `finite m e` is `m · 2^e`. -/
inductive Extended where
  | bottom
  | finite (m : Int) (e : Int)
  | top
  deriving DecidableEq, Repr

namespace Extended

/-- Both numbers over the lower exponent compare as their mantissas. -/
def compare : Extended → Extended → Ordering
  | .bottom, .bottom => .eq
  | .bottom, _ => .lt
  | .top, .top => .eq
  | .top, _ => .gt
  | .finite _ _, .bottom => .gt
  | .finite _ _, .top => .lt
  | .finite m e, .finite n f =>
    let low := min e f
    Ord.compare (Double.lowerTo m e low) (Double.lowerTo n f low)

end Extended

namespace Number

/-- The exact value of a number; NaN has none. -/
def extended? : Number → Option Extended
  | .int n => some (.finite n 0)
  | .double .nan => none
  | .double (.infinite s) => some (if s then .bottom else .top)
  | .double (.finite s m e) => some (.finite (Double.signed s m) e)

/-- Equality of values, whichever way they are written: `1` is `1.0`, and
NaN is not even equal to itself. -/
def equal (x y : Number) : Bool :=
  match x.extended?, y.extended? with
  | some a, some b => a.compare b == .eq
  | _, _ => false

def isZero : Number → Bool
  | .int n => n = 0
  | .double x => x.isZero

def toDouble : Number → Except Limit Double
  | .int n => match Double.ofInt? n with
    | some x => .ok x
    | none => .error .intTooLarge
  | .double x => .ok x

/-- Whether a number is NaN, found by turning it into a double; so an
integer beyond every double fails here. -/
def isNaN (x : Number) : Except Limit Bool := x.toDouble.map Double.isNaN

/-! ## Arithmetic -/

/-- The integer operation on two integers, else the one on doubles. -/
def combine (ints : Int → Int → Int) (doubles : Double → Double → Double)
    (x y : Number) : Except Limit Number :=
  match x, y with
  | .int m, .int n => .ok (.int (ints m n))
  | x, y => do
    let a ← x.toDouble
    let b ← y.toDouble
    .ok (.double (doubles a b))

def add : Number → Number → Except Limit Number := combine (· + ·) Double.add

def sub : Number → Number → Except Limit Number := combine (· - ·) Double.sub

def mul : Number → Number → Except Limit Number := combine (· * ·) Double.mul

/-- The quotient by a divisor that is not zero. Integers that divide
evenly give an integer, others the double nearest to their fraction. -/
def div : Number → Number → Except Limit Number
  | .int m, .int n =>
    if m % n = 0 then .ok (.int (m / n))
    else match Double.roundRatio ((m < 0) != (n < 0)) m.natAbs n.natAbs with
      | .infinite _ => .error .quotientTooLarge
      | q => .ok (.double q)
  | x, y => do
    let a ← x.toDouble
    let b ← y.toDouble
    .ok (.double (a.div b))

/-- A number rounded to two places; an integer is itself. -/
def roundPlaces (places : Nat) : Number → Number
  | .int n => .int n
  | .double x => .double (x.roundPlaces places)

end Number

end Conduit
