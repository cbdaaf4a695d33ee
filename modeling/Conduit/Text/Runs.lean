/-!
# Sets of characters as runs

A property of characters holds on runs of code points. A set is kept as
the ascending list of the points where it begins and ends; a character
lies in the set when it is past an odd number of them.
-/

namespace Conduit.Text

/-- Walks past the change points up to `c`, turning `inside` at each. -/
def crossRuns (c : Nat) : List Nat → Bool → Bool
  | [], inside => inside
  | p :: rest, inside => if c < p then inside else crossRuns c rest (!inside)

def inRuns (runs : List Nat) (c : Char) : Bool := crossRuns c.toNat runs false

end Conduit.Text
