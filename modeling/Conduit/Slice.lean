/-!
# Slices

A slice selects every `step`-th position from `start` up to, not
including, `stop`. A negative bound counts from the end, bounds outside
the list are moved to its nearest end, and a negative step walks
backwards.
-/

namespace Conduit

structure Slice where
  start : Option Int
  stop : Option Int
  step : Option Int
  deriving DecidableEq, Repr, Inhabited

namespace Slice

/-- A bound inside the list: from the end if negative, then between `low`
and `high`. -/
def clamp (low high size : Int) (bound : Int) : Int :=
  if bound < 0 then max (bound + size) low else min bound high

/-- The first position, and the position that ends the walk. -/
def bounds (s : Slice) (size : Nat) : Int × Int :=
  if 0 < s.step.getD 1 then
    ((s.start.map (clamp 0 size size)).getD 0, (s.stop.map (clamp 0 size size)).getD size)
  else
    ((s.start.map (clamp (-1) (size - 1) size)).getD (size - 1),
      (s.stop.map (clamp (-1) (size - 1) size)).getD (-1))

/-- How many positions the walk from `low` to `high` visits. -/
def count (low high step : Int) : Nat :=
  if 0 < step then ((high - low + step - 1) / step).toNat
  else if step < 0 then ((low - high - step - 1) / (-step)).toNat
  else 0

/-- The selected positions of a list of `size` elements, in order. -/
def positions (s : Slice) (size : Nat) : List Nat :=
  let step := s.step.getD 1
  let (low, high) := s.bounds size
  (List.range (count low high step)).map fun (i : Nat) => (low + step * i).toNat

def apply {α : Type} (s : Slice) (xs : List α) : List α :=
  (s.positions xs.length).filterMap fun i => xs[i]?

end Slice

end Conduit
