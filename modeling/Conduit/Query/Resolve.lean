import Conduit.Path.Walk
import Conduit.Query.Segment

/-!
# Segments as a path

Segments that are all steps can be followed like a dot path, to one value
or to a failure. A segment of another kind stops the walk where it stands.
-/

namespace Conduit

namespace Segment

variable {P : Type}

inductive ResolveError where
  | failure (f : Failure)
  | path (e : PathError)
  deriving DecidableEq, Repr

/-- The value at the end of the segments from `v`; `path` is what failures
show. -/
def resolve (path : String) : List (Segment P) → Value → Except ResolveError Value
  | [], v => .ok v
  | .step s :: rest, v =>
    match s.follow path v with
    | .ok w => resolve path rest w
    | .error f => .error (.failure f)
  | s :: _, _ => .error (.path (.notAStep s.name))

end Segment

end Conduit
