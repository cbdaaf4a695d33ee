import Conduit.Value.Text

/-!
# Diagnostics

What a check finds wrong with pipelines before they run. A problem that
would break a run is an error; a name that may turn out to be unbound is
only warned of.
-/

namespace Conduit

inductive Severity where
  | error | warning
  deriving DecidableEq, Repr

def Severity.name : Severity → String
  | .error => "error"
  | .warning => "warning"

inductive Problem where
  /-- A name is read that nothing before binds. -/
  | unboundName (name : String) (available : List String)
  | unknownSchema (name : String) (known : List String)
  | reservedName (name : String)
  /-- A stage has the name of an earlier one, which stands at `first`. -/
  | duplicateName (name first : String)
  | unknownMiddleware (name : String) (defined : List String)
  deriving DecidableEq, Repr

namespace Problem

def severity : Problem → Severity
  | .unboundName _ _ => .warning
  | _ => .error

/-- The field of a stage or route that a problem is about. -/
def field : Problem → String
  | .unboundName _ _ => "value"
  | .unknownSchema _ _ => "value"
  | .reservedName _ => "name"
  | .duplicateName _ _ => "name"
  | .unknownMiddleware _ _ => "middleware"

/-- Names in order, without repetitions, as a list of quoted texts. -/
def sorted (names : List String) : String :=
  displayNames (names.eraseDups.mergeSort fun a b => !(b < a))

def message : Problem → String
  | .unboundName name available =>
    "Reference '" ++ name ++ "' is not bound before this step. Available names: " ++
      sorted available
  | .unknownSchema name known =>
    "Unknown schema '" ++ name ++ "'. Known schemas: " ++ sorted known
  | .reservedName name => "Step name '" ++ name ++ "' is reserved"
  | .duplicateName name first =>
    "Duplicate step name '" ++ name ++ "' (first bound at " ++ first ++ ")"
  | .unknownMiddleware name defined =>
    "Unknown middleware '" ++ name ++ "'. Defined middleware: " ++ sorted defined

end Problem

structure Diagnostic where
  location : String
  /-- The name of the stage, if the problem is about one that has a name. -/
  stage : Option String
  problem : Problem
  deriving DecidableEq, Repr

namespace Diagnostic

def severity (d : Diagnostic) : Severity := d.problem.severity

def ofSeverity (s : Severity) (ds : List Diagnostic) : List Diagnostic :=
  ds.filter fun d => d.severity = s

def areOk (ds : List Diagnostic) : Bool := ds.all fun d => d.severity ≠ .error

end Diagnostic

end Conduit
