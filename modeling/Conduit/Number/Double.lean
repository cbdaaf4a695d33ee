/-!
# Double-precision numbers

A double is kept as the number it stands for: a sign, a mantissa and a
power of two, or one of the values outside the number line. Every
operation is the exact one on fractions followed by one rounding,
`roundRatio`, so the arithmetic is a definition that proofs can open and
the machine's own floating-point unit is never asked.
-/

namespace Conduit

/-- A binary64 value. `finite s m e` is `± m · 2^e`, negative when `s`
holds; both zeros are `finite s 0 _`. -/
inductive Double where
  | nan
  | infinite (negative : Bool)
  | finite (negative : Bool) (mantissa : Nat) (exponent : Int)
  deriving DecidableEq, Repr, Inhabited

namespace Double

/-! ## The format -/

/-- A mantissa is below this power of two. -/
def mantissaBound : Nat := Nat.pow 2 53

/-- The exponent of the subnormal numbers and of zero. -/
def leastExponent : Int := -1074

/-- The exponent of the largest finite numbers. -/
def greatestExponent : Int := 971

def zero (negative : Bool) : Double := .finite negative 0 leastExponent

/-- The form every result takes: the mantissa uses all its bits unless
the exponent is already the least. -/
def Canonical : Double → Prop
  | .finite _ m e =>
    m < mantissaBound ∧ leastExponent ≤ e ∧ e ≤ greatestExponent ∧
      (mantissaBound ≤ 2 * m ∨ e = leastExponent)
  | _ => True

/-! ## Rounding a fraction -/

/-- The numerator and denominator of `num / den` divided by `2^e`. -/
def scale (num den : Nat) (e : Int) : Nat × Nat :=
  if 0 ≤ e then (num, den * Nat.pow 2 e.toNat) else (num * Nat.pow 2 (-e).toNat, den)

/-- The exponent at which `num / den` has a mantissa of full length, or
the least exponent when the fraction is too small for one. The first
guess from the two bit lengths is at most one too small. -/
def exponentFor (num den : Nat) : Int :=
  let guess := (num.log2 : Int) - den.log2 - 53
  let (n, d) := scale num den guess
  max (if n / d < mantissaBound then guess else guess + 1) leastExponent

/-- The integer nearest to `num / den`, a half going to the even one. -/
def nearestEven (num den : Nat) : Nat :=
  let q := num / den
  let r := 2 * (num % den)
  if r < den then q else if den < r then q + 1 else if q % 2 = 0 then q else q + 1

/-- A mantissa that rounding carried to one bit more, put back in form,
and the overflow to infinity. -/
def assemble (negative : Bool) (mantissa : Nat) (exponent : Int) : Double :=
  let (m, e) :=
    if mantissa < mantissaBound then (mantissa, exponent) else (mantissa / 2, exponent + 1)
  if greatestExponent < e then .infinite negative else .finite negative m e

/-- The double nearest to `± num / den`, ties to the even mantissa. -/
def roundRatio (negative : Bool) (num den : Nat) : Double :=
  if num = 0 then zero negative
  else
    let e := exponentFor num den
    let (n, d) := scale num den e
    assemble negative (nearestEven n d) e

/-- The double nearest to `± digits · 10^exponent`. Fractions far outside
the range are settled by their digit count, before any large power is
formed. -/
def ofDecimal (negative : Bool) (digits : Nat) (exponent : Int) : Double :=
  if digits = 0 then zero negative
  else
    let size := (Nat.toDigits 10 digits).length + exponent
    if 310 < size then .infinite negative
    else if size < -330 then zero negative
    else if 0 ≤ exponent then roundRatio negative (digits * Nat.pow 10 exponent.toNat) 1
    else roundRatio negative digits (Nat.pow 10 (-exponent).toNat)

/-- The double nearest to an integer; none when that is not finite. -/
def ofInt? (n : Int) : Option Double :=
  match roundRatio (n < 0) n.natAbs 1 with
  | .infinite _ => none
  | x => some x

/-! ## Reading a double as a fraction -/

/-- A signed integer times a power of two, as numerator and denominator. -/
def fraction (m : Nat) (e : Int) : Nat × Nat :=
  if 0 ≤ e then (m * Nat.pow 2 e.toNat, 1) else (m, Nat.pow 2 (-e).toNat)

def signed (negative : Bool) (m : Nat) : Int := if negative then -(m : Int) else m

/-- `m · 2^(e - f)` for `f ≤ e`: the mantissa of `m · 2^e` at the lower
exponent `f`. -/
def lowerTo (m : Int) (e f : Int) : Int := m * (Nat.pow 2 (e - f).toNat : Nat)

/-- The double nearest to the dyadic number `m · 2^e`; a zero result takes
the given sign. -/
def roundDyadic (zeroNegative : Bool) (m : Int) (e : Int) : Double :=
  if m = 0 then zero zeroNegative
  else
    let (n, d) := fraction m.natAbs e
    roundRatio (m < 0) n d

/-! ## Arithmetic -/

def neg : Double → Double
  | .nan => .nan
  | .infinite s => .infinite (!s)
  | .finite s m e => .finite (!s) m e

/-- The sum. Opposite numbers add up to the positive zero. -/
def add : Double → Double → Double
  | .nan, _ => .nan
  | _, .nan => .nan
  | .infinite s, .infinite t => if s = t then .infinite s else .nan
  | .infinite s, .finite _ _ _ => .infinite s
  | .finite _ _ _, .infinite t => .infinite t
  | .finite s m e, .finite t n f =>
    let low := min e f
    roundDyadic (s && t) (lowerTo (signed s m) e low + lowerTo (signed t n) f low) low

def sub (x y : Double) : Double := add x (neg y)

def mul : Double → Double → Double
  | .nan, _ => .nan
  | _, .nan => .nan
  | .infinite s, .infinite t => .infinite (s != t)
  | .infinite s, .finite t n _ => if n = 0 then .nan else .infinite (s != t)
  | .finite s m _, .infinite t => if m = 0 then .nan else .infinite (s != t)
  | .finite s m e, .finite t n f =>
    let (p, q) := fraction (m * n) (e + f)
    roundRatio (s != t) p q

/-- The quotient; a zero divisor gives an infinity, or no number at all. -/
def div : Double → Double → Double
  | .nan, _ => .nan
  | _, .nan => .nan
  | .infinite _, .infinite _ => .nan
  | .infinite s, .finite t _ _ => .infinite (s != t)
  | .finite s _ _, .infinite t => zero (s != t)
  | .finite s m e, .finite t n f =>
    if n = 0 then if m = 0 then .nan else .infinite (s != t)
    else
      let (p, q) := fraction m e
      let (u, v) := fraction n f
      roundRatio (s != t) (p * v) (q * u)

def isZero : Double → Bool
  | .finite _ m _ => m = 0
  | _ => false

def isNaN : Double → Bool
  | .nan => true
  | _ => false

/-- The integer a double stands for, if it stands for one. -/
def toInt? : Double → Option Int
  | .finite s m e =>
    if 0 ≤ e then some (signed s (m * Nat.pow 2 e.toNat))
    else
      let d := Nat.pow 2 (-e).toNat
      if m % d = 0 then some (signed s (m / d)) else none
  | _ => none

/-- The double nearest to the decimal with the given number of places that
is itself nearest to `x`, ties to the even last digit. -/
def roundPlaces (places : Nat) : Double → Double
  | .finite s m e =>
    let (p, q) := fraction m e
    roundRatio s (nearestEven (p * Nat.pow 10 places) q) (Nat.pow 10 places)
  | x => x

end Double

end Conduit
