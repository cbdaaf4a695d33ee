import Conduit.Value.Order

/-!
# Comparisons

The six comparisons of two values. Equality is defined for all values,
the four orderings only where values have an order.
-/

namespace Conduit

inductive Comparison where
  | eq | ne | gt | gte | lt | lte
  deriving DecidableEq, Repr

namespace Comparison

def holds (op : Comparison) (v w : Value) : Except Value.Unordered Bool :=
  match op with
  | .eq => .ok (v.equal w)
  | .ne => .ok (!v.equal w)
  | .gt => (Value.compare v w).map (· == .gt)
  | .gte => (Value.compare v w).map (· != .lt)
  | .lt => (Value.compare v w).map (· == .lt)
  | .lte => (Value.compare v w).map (· != .gt)

end Comparison

end Conduit
