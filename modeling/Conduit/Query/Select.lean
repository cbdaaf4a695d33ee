import Conduit.Path.Walk
import Conduit.Query.Segment

/-!
# Running a query

Each segment maps the values reached so far to the values one step on,
in document order; a segment that does not fit a value leads nowhere,
which is no error. What a filter's predicate means is left to a judge,
which may have effects of its own, so it is asked about one candidate
after another, in order.
-/

namespace Conduit

namespace Value

/-- The members of an object or array, in order. -/
def children : Value → List Value
  | .obj fs => Fields.values fs
  | .mapping es => es.map Prod.snd
  | .arr xs => xs
  | _ => []

mutual

/-- A value and all inside it, each before its own contents. -/
def descendants : Value → List Value
  | .arr xs => .arr xs :: descendantsOfItems xs
  | .obj fs => .obj fs :: descendantsOfFields fs
  | .mapping es => .mapping es :: descendantsOfEntries es
  | v => [v]

def descendantsOfItems : List Value → List Value
  | [] => []
  | x :: xs => descendants x ++ descendantsOfItems xs

def descendantsOfFields : List (String × Value) → List Value
  | [] => []
  | (_, v) :: rest => descendants v ++ descendantsOfFields rest

def descendantsOfEntries : List (Value × Value) → List Value
  | [] => []
  | (_, v) :: rest => descendants v ++ descendantsOfEntries rest

end

end Value

namespace Query

/-- What a query asks of its surroundings: a verdict on a candidate of a
filter, what to do at a numeric limit, and what to do before each step. -/
structure Judge (m : Type → Type) [Monad m] (P : Type) where
  accepts : P → Value → m Bool
  overrun : Limit → m (List Value)
  visit : Step → Value → m Unit := fun _ _ => pure ()

variable {m : Type → Type} [Monad m] {P : Type}

/-- The candidates that the judge accepts. -/
def keep (judge : Judge m P) (p : P) : List Value → m (List Value)
  | [] => pure []
  | v :: rest => do
    let accepted ← judge.accepts p v
    let kept ← keep judge p rest
    pure (if accepted then v :: kept else kept)

/-- What an action finds for each of several values, one after another. -/
def collect (find : Value → m (List Value)) : List Value → m (List Value)
  | [] => pure []
  | v :: rest => do
    let first ← find v
    let more ← collect find rest
    pure (first ++ more)

/-- Where one step leads: to one value, or nowhere. -/
def selectStep (s : Step) (v : Value) : Except Limit (List Value) :=
  match s, v with
  | .field name, .arr xs =>
    if Value.isPosition name then do
      let n ← Value.positionOf name
      .ok (xs[n]?.toList)
    else .ok []
  | .field name, v => .ok (v.field? name).toList
  | .index i, .arr xs => .ok (Value.element? xs i).toList
  | .index _, _ => .ok []

mutual

/-- The values that a segment leads to from `v`. -/
def select (judge : Judge m P) : Segment P → Value → m (List Value)
  | .step s, v => do
    judge.visit s v
    match selectStep s v with
    | .ok found => pure found
    | .error l => judge.overrun l
  | .wildcard, v => pure v.children
  | .slice s, v =>
    match v with
    | .arr xs => pure (s.apply xs)
    | _ => pure []
  | .filter p, v => keep judge p v.children
  | .selection ss, v => selectAll judge ss v
  | .descent s, v => collect (select judge s) v.descendants

def selectAll (judge : Judge m P) : List (Segment P) → Value → m (List Value)
  | [], _ => pure []
  | s :: rest, v => do
    let first ← select judge s v
    let more ← selectAll judge rest v
    pure (first ++ more)

end

/-- The values that segments lead to from the given ones. -/
def runFrom (judge : Judge m P) : List (Segment P) → List Value → m (List Value)
  | [], found => pure found
  | s :: rest, found => do runFrom judge rest (← collect (select judge s) found)

def run (judge : Judge m P) (segments : List (Segment P)) (root : Value) : m (List Value) :=
  runFrom judge segments [root]

end Query

end Conduit
