import Conduit.Value.Text

/-!
# Log events

What a run reports about itself, one event at a time. An event is written
as one line of JSON; those that report how long something took show the
milliseconds to two places.
-/

namespace Conduit

inductive Event where
  | stepStart (step : Option String) (operator : String)
  /-- A step is done; the preview of its value is there if wanted. -/
  | stepComplete (step : Option String) (preview : Option String)
  | earlyReturn (step : Option String)
  | storageCall (operator collection : String)
  | error (step : Option String) (kind message : String)
  | pipelineComplete (status : String) (steps : Int)
  deriving DecidableEq, Repr

namespace Event

/-- The first characters of a value's JSON text. -/
def preview (v : Value) : Except Limit String :=
  v.json.map fun text => String.ofList (text.toList.take 200)

/-- How much an event matters; a log drops what is below its level. -/
def level : Event → Nat
  | .storageCall _ _ => 10
  | .error _ _ _ => 40
  | _ => 20

def stepName : Option String → Value
  | some name => .str name
  | none => .null

/-- The duration of an event, if it is to be shown. -/
def durationField : Option Number → Fields Value
  | some d => [("duration_ms", .number (d.roundPlaces 2))]
  | none => []

/-- What an event holds, by name. -/
def fields (duration : Option Number) : Event → Fields Value
  | .stepStart step op =>
    [("event", .str "step_start"), ("step_name", stepName step), ("op", .str op)]
  | .stepComplete step preview =>
    [("event", .str "step_complete"), ("step_name", stepName step)] ++ durationField duration ++
      match preview with
      | some text => [("value_preview", .str text)]
      | none => []
  | .earlyReturn step => [("event", .str "early_return"), ("step_name", stepName step)]
  | .storageCall op collection =>
    [("event", .str "storage_call"), ("op", .str op), ("collection", .str collection)] ++
      durationField duration
  | .error step kind message =>
    [("event", .str "error"), ("step_name", stepName step), ("kind", .str kind),
      ("error", .str message)]
  | .pipelineComplete status steps =>
    [("event", .str "pipeline_complete"), ("status", .str status), ("steps", .int steps)] ++
      durationField duration

def line (duration : Option Number) (e : Event) : Except Limit String :=
  (Value.obj (e.fields duration)).json

/-- The lines of a log of events with their durations, from a level on. -/
def lines (least : Nat) (events : List (Event × Option Number)) : Except Limit (List String) :=
  (events.filter fun p => least ≤ p.1.level).mapM fun p => p.1.line p.2

end Event

end Conduit
