import Conduit.Path.Printer
import Conduit.Slice

/-!
# Query segments

A query is a list of segments, each of which leads from one value to any
number of values. The type `P` of the predicates in filters is left
open.
-/

namespace Conduit

inductive Segment (P : Type) where
  | step (s : Step)
  | wildcard
  | slice (s : Slice)
  /-- The children that satisfy a predicate. -/
  | filter (predicate : P)
  /-- What each of several selectors leads to, one after another. -/
  | selection (selectors : List (Segment P))
  /-- What the segment leads to from the value and from all inside it. -/
  | descent (inner : Segment P)
  deriving Repr, Inhabited

namespace Segment

variable {P : Type}

/-- The name by which errors call a segment. -/
def name : Segment P → String
  | .step (.field _) => "Field"
  | .step (.index _) => "Index"
  | .wildcard => "Wildcard"
  | .slice _ => "Slice"
  | .filter _ => "Filter"
  | .selection _ => "Selection"
  | .descent _ => "RecursiveDescent"

/-- The texts of segments in a dot path; a segment that is no step has
none. -/
def pathTexts (first : Bool) : List (Segment P) → Except PathError (List String)
  | [] => .ok []
  | .step s :: rest =>
    match s.text first with
    | .error l => .error (.limit l)
    | .ok head => do
      let tail ← pathTexts false rest
      .ok (head :: tail)
  | s :: _ => .error (.notAStep s.name)

/-- The dot path of segments, if all are steps. -/
def pathText (segments : List (Segment P)) : Except PathError String := do
  .ok (String.join (← pathTexts true segments))

end Segment

end Conduit
