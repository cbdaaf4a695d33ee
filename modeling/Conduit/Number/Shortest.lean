import Conduit.Number.Double

/-!
# Shortest decimal form

The text of a double is the shortest decimal that reads back as the same
double. `shortest` tries one, two, three, … digits; on each decimal grid
only the two neighbours of the value can lie in the interval that rounds
to it, because when any grid point does, so does one next to the value.
All comparisons are between integers.
-/

namespace Conduit

/-- The positive decimal `digits · 10^exponent`. -/
structure Decimal where
  digits : Nat
  exponent : Int
  deriving DecidableEq, Repr, Inhabited

namespace Decimal

/-- The same number without zeros at the end of its digits. -/
def trim : Nat → Decimal → Decimal
  | 0, d => d
  | fuel + 1, d =>
    if d.digits % 10 = 0 ∧ d.digits ≠ 0 then trim fuel ⟨d.digits / 10, d.exponent + 1⟩ else d

/-- `digits · 10^exponent · den` against `num`, that is the decimal
against the fraction `num / den`. -/
def compareFraction (d : Decimal) (num den : Nat) : Ordering :=
  if 0 ≤ d.exponent then compare (d.digits * Nat.pow 10 d.exponent.toNat * den) num
  else compare (d.digits * den) (num * Nat.pow 10 (-d.exponent).toNat)

end Decimal

namespace Double

/-- The open or closed interval of the numbers that round to a double,
over a common denominator. -/
structure Span where
  low : Nat
  value : Nat
  high : Nat
  den : Nat
  /-- The ends belong to the interval. -/
  closed : Bool

/-- The span of `m · 2^e`. Below a power of two the neighbour is only half
as far; the ends round to the even mantissa. -/
def span (m : Nat) (e : Int) : Span :=
  let (unit, den) := fraction 1 (e - 2)
  let below := if 2 * m = mantissaBound ∧ leastExponent < e then 1 else 2
  ⟨(4 * m - below) * unit, 4 * m * unit, (4 * m + 2) * unit, den, m % 2 = 0⟩

namespace Span

def contains (s : Span) (d : Decimal) : Bool :=
  let low := d.compareFraction s.low s.den
  let high := d.compareFraction s.high s.den
  if s.closed then low != .lt && high != .gt else low == .gt && high == .lt

/-- The floor of the value on the grid of the multiples of `10^k`. -/
def floorAt (s : Span) (k : Int) : Nat :=
  if 0 ≤ k then s.value / (s.den * Nat.pow 10 k.toNat) else s.value * Nat.pow 10 (-k).toNat / s.den

/-- The value against the middle between `n` and `n + 1` on the grid of
`10^k`. -/
def compareMiddle (s : Span) (n : Nat) (k : Int) : Ordering :=
  if 0 ≤ k then compare (2 * s.value) ((2 * n + 1) * Nat.pow 10 k.toNat * s.den)
  else compare (2 * s.value * Nat.pow 10 (-k).toNat) ((2 * n + 1) * s.den)

/-- The grid point of `10^k` that lies in the span and is nearest to the
value, an even one on a tie. -/
def gridPoint? (s : Span) (k : Int) : Option Decimal :=
  let n := s.floorAt k
  let down : Decimal := ⟨n, k⟩
  let up : Decimal := ⟨n + 1, k⟩
  match s.contains down, s.contains up with
  | false, false => none
  | true, false => some down
  | false, true => some up
  | true, true =>
    match s.compareMiddle n k with
    | .lt => some down
    | .gt => some up
    | .eq => some (if n % 2 = 0 then down else up)

/-- The greatest `k` with `10^k` at most the value. The bit length of the
value puts it within one. -/
def magnitude (s : Span) (bits : Int) : Int :=
  let guess := bits * 30103 / 100000
  if s.floorAt (guess + 1) ≠ 0 then guess + 1
  else if s.floorAt guess ≠ 0 then guess
  else guess - 1

end Span

/-- The first grid, from one digit on, that meets the span. -/
def search (s : Span) : Nat → Int → Decimal
  | 0, k => ⟨s.floorAt k, k⟩
  | fuel + 1, k =>
    match s.gridPoint? k with
    | some d => d
    | none => search s fuel (k - 1)

/-- The shortest decimal that reads back as `m · 2^e`, nearest to it among
those, for `0 < m`. -/
def shortest (m : Nat) (e : Int) : Decimal :=
  let s := span m e
  let top := s.magnitude ((m.log2 : Int) + e)
  let d := search s 17 top
  d.trim 20

end Double

end Conduit
