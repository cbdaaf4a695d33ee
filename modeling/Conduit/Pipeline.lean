import Conduit.Eval

/-!
# Pipelines

A pipeline is a list of stages that are evaluated in order in one scope,
to which each named stage adds its value. A run ends after the last
stage, at a return, or at the first failure; whichever it is, the scope is
then what the stages before have made of it. A run also fails at a stage
that has bound its value, if the log is to show the value and cannot.
-/

namespace Conduit

structure Stage where
  name : Option String
  value : Expr
  deriving Inhabited

abbrev Pipeline := List Stage

/-- How a run that did not fail came to its end. -/
inductive RunStatus where
  | completed | returned
  deriving DecidableEq, Repr

def RunStatus.name : RunStatus → String
  | .completed => "completed"
  | .returned => "returned"

structure RunResult where
  status : RunStatus
  /-- The value of the last stage or of the return, else null. -/
  output : Value
  /-- The values of the stages that were completed, with their names. -/
  results : List (Option String × Value)

/-- What a run leaves behind. -/
structure RunEnd where
  scope : Scope
  outcome : Except Failure RunResult

namespace Pipeline

variable {σ : Type}

def report (e : Event) : StateM (World σ) Unit :=
  modify fun w => { w with events := w.events ++ [e] }

/-- Notes that the value of a stage is about to be bound, if it has a name. -/
def noteBinding (name : Option String) (s : Scope) : StateM (World σ) Unit :=
  match name with
  | some name => modify fun w => { w with notes := .binding name s :: w.notes }
  | none => pure ()

/-- The scope with the value of a stage, under its name if it has one. -/
def bindValue (name : Option String) (v : Value) (s : Scope) : Except Failure Scope :=
  match name with
  | some name => s.bind name v
  | none => .ok s

/-- The preview of a value for the log, if values are shown there. -/
def previewOf (settings : Settings) (v : Value) : Except Limit (Option String) :=
  if settings.logValues then (Event.preview v).map some else .ok none

/-- The value of a stage, unless the run is cancelled. -/
def evalStage (host : Host σ) (stage : Stage) (s : Scope) : Action σ Value := do
  Action.checkCancelled
  stage.value.eval host s

/-- The end of a run with a result. -/
def finish (s : Scope) (status : RunStatus) (output : Value)
    (results : List (Option String × Value)) : StateM (World σ) RunEnd := do
  report (.pipelineComplete status.name results.length)
  pure ⟨s, .ok ⟨status, output, results⟩⟩

/-- The rest of a run: `output` and `results` are those so far. -/
def runFrom (host : Host σ) (results : List (Option String × Value)) (output : Value) :
    Pipeline → Scope → StateM (World σ) RunEnd
  | [], s => finish s .completed output results
  | stage :: rest, s => do
    report (.stepStart stage.name stage.value.operator.name)
    match ← (evalStage host stage s).run with
    | .error (.returned v) =>
      report (.earlyReturn stage.name)
      finish s .returned v results
    | .error (.failed f) =>
      if let some kind := f.kind? then report (.error stage.name kind.name f.message)
      pure ⟨s, .error f⟩
    | .ok v =>
      noteBinding stage.name s
      match bindValue stage.name v s with
      | .error f => pure ⟨s, .error f⟩
      | .ok inner =>
        match previewOf host.settings v with
        | .error l => pure ⟨inner, .error (.limit l)⟩
        | .ok preview =>
          report (.stepComplete stage.name preview)
          runFrom host (results ++ [(stage.name, v)]) v rest inner

def run (host : Host σ) (stages : Pipeline) (s : Scope) : StateM (World σ) RunEnd :=
  runFrom host [] .null stages s

end Pipeline

end Conduit
