import Conduit.Database
import Conduit.Eval.Operation
import Conduit.Event
import Conduit.Settings

/-!
# Actions

An evaluation reads from its host, changes the world and comes to a
value, unless a signal stops it: a failure, or a return that leaves for
the pipeline around it. The world is the state of all that the host
provides, together with what an observer sees of the run: whether it is
cancelled, the database calls made and the events reported so far, and
notes of what else was done, the latest first. Nothing is decided by the
notes.
-/

namespace Conduit

/-- What evaluation can use. A clock may fail. The template engine is asked for
whenever a template is rendered, so it need not print the same each time. -/
structure Host (σ : Type) where
  database : Option (Database σ)
  clock : σ → Except Failure Moment × σ
  engine : σ → Engine × σ := fun outside => (.idle, outside)
  settings : Settings := {}
  schemas : Fields (Fields Value) := []

structure World (σ : Type) where
  outside : σ
  cancelled : Bool := false
  calls : List Call := []
  events : List Event := []
  notes : List Note := []

/-- What stops an evaluation. -/
inductive Signal where
  | failed (f : Failure)
  | returned (v : Value)

abbrev Action (σ α : Type) := ExceptT Signal (StateM (World σ)) α

namespace Action

variable {σ α : Type}

def fail (f : Failure) : Action σ α := throw (.failed f)

def ofExcept : Except Failure α → Action σ α
  | .ok a => pure a
  | .error f => fail f

def report (e : Event) : Action σ Unit := modify fun w => { w with events := w.events ++ [e] }

def note (n : Note) : Action σ Unit := modify fun w => { w with notes := n :: w.notes }

/-- An operation, noted before it is done. -/
def perform (o : Operation) : Action σ Value := do
  note (.operation o)
  ofExcept o.result

/-- An action whose notes are those of a filter. -/
def inFilter (act : Action σ α) : Action σ α := fun w =>
  let (result, after) := act { w with notes := [] }
  (result, { after with notes := after.notes.map .filtered ++ w.notes })

/-- Goes on unless the run is cancelled. -/
def checkCancelled : Action σ Unit := do
  if (← get).cancelled then fail .cancelled

/-- What a database answers to a call, which is recorded. -/
def consult (db : Database σ) (call : Call) : Action σ (Except Fault Value) := do
  let w ← get
  let (reply, outside) := db.respond call w.outside
  set { w with
    outside, cancelled := w.cancelled || reply.cancels, calls := w.calls ++ [call] }
  pure reply.result

/-- One call of a database: not when the run is cancelled, reported when it
succeeds. -/
def ask (db : Database σ) (call : Call) : Action σ Value := do
  checkCancelled
  match ← consult db call with
  | .error fault => fail (fault.toFailure call)
  | .ok v =>
    report (.storageCall call.operator.name call.collection)
    pure v

/-- A reading of the host's clock. -/
def readClock (host : Host σ) : Action σ (Except Failure Moment) := do
  let w ← get
  let (reading, outside) := host.clock w.outside
  set { w with outside }
  pure reading

/-- The host's engine as it is now. -/
def takeEngine (host : Host σ) : Action σ Engine := do
  let w ← get
  let (engine, outside) := host.engine w.outside
  set { w with outside }
  pure engine

/-- An action whose failures of some kinds have a value. -/
def recover (kinds : List FailureKind) (value : α) (act : Action σ α) : Action σ α :=
  tryCatch act fun
    | .failed f => if f.kind?.any kinds.contains then pure value else fail f
    | signal => throw signal

/-! ## One after another -/

variable {m : Type → Type} [Monad m]

/-- The values of an action on each item. -/
def mapEach (act : Value → m Value) : List Value → m (List Value)
  | [] => pure []
  | x :: xs => do
    let v ← act x
    let vs ← mapEach act xs
    pure (v :: vs)

/-- The items on which an action gives a truthy value. -/
def keepEach (act : Value → m Value) : List Value → m (List Value)
  | [] => pure []
  | x :: xs => do
    let v ← act x
    let kept ← keepEach act xs
    pure (if v.truthy then x :: kept else kept)

/-- The first falsy value, else the last one; what comes after it is not
done. -/
def conjoin (last : Value) : List (m Value) → m Value
  | [] => pure last
  | act :: rest => do
    let v ← act
    if v.truthy then conjoin v rest else pure v

/-- The first truthy value, else the last one; what comes after it is not
done. -/
def disjoin (last : Value) : List (m Value) → m Value
  | [] => pure last
  | act :: rest => do
    let v ← act
    if v.truthy then pure v else disjoin v rest

/-- An accumulator carried through an action on each item. -/
def foldEach (act : Value → Value → m Value) : Value → List Value → m Value
  | acc, [] => pure acc
  | acc, x :: xs => do foldEach act (← act acc x) xs

end Action

end Conduit
