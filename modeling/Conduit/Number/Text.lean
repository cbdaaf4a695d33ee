import Conduit.Number.Shortest

/-!
# Decimal text of a double

The shortest digits of a double, laid out with a point or with an
exponent. What is a choice of this format, and not forced by the number,
stands in one record.
-/

namespace Conduit

/-- How the digits of a double are laid out. -/
structure Layout where
  /-- The least exponent of the leading digit that is written with a point only. -/
  leastPositional : Int
  /-- The first exponent that is again written as an exponent. -/
  firstScientific : Int
  /-- The least number of digits in a written exponent. -/
  exponentWidth : Nat
  nan : String
  infinity : String

namespace Layout

/-- Numbers from `0.0001` up to, not including, `10^16` have a point; a
whole number keeps `.0`; exponents have a sign and two digits. -/
def plain : Layout := ⟨-4, 16, 2, "nan", "inf"⟩

/-- The same in JSON text, where the values that are no numbers have
names of their own. -/
def json : Layout := { plain with nan := "NaN", infinity := "Infinity" }

end Layout

namespace Double

def zeros (n : Nat) : String := String.ofList (List.replicate n '0')

/-- Digits with a point; `lead` is the exponent of the first digit. -/
def positional (digits : String) (lead : Int) : String :=
  let size : Int := digits.length
  if lead < 0 then "0." ++ zeros (-lead - 1).toNat ++ digits
  else if size ≤ lead + 1 then digits ++ zeros (lead + 1 - size).toNat ++ ".0"
  else
    let whole := (lead + 1).toNat
    String.ofList (digits.toList.take whole) ++ "." ++ String.ofList (digits.toList.drop whole)

/-- Digits with an exponent. -/
def scientific (width : Nat) (digits : String) (lead : Int) : String :=
  let head := String.ofList (digits.toList.take 1)
  let tail := String.ofList (digits.toList.drop 1)
  let power := toString lead.natAbs
  head ++ (if tail.isEmpty then "" else "." ++ tail) ++ "e" ++ (if lead < 0 then "-" else "+") ++
    zeros (width - power.length) ++ power

def finiteText (layout : Layout) (m : Nat) (e : Int) : String :=
  if m = 0 then "0.0"
  else
    let d := shortest m e
    let digits := toString d.digits
    let lead := d.exponent + digits.length - 1
    if layout.leastPositional ≤ lead ∧ lead < layout.firstScientific then positional digits lead
    else scientific layout.exponentWidth digits lead

def text (layout : Layout) : Double → String
  | .nan => layout.nan
  | .infinite s => (if s then "-" else "") ++ layout.infinity
  | .finite s m e => (if s then "-" else "") ++ finiteText layout m e

end Double

end Conduit
