import Conduit.Limit
import Conduit.Text.Quoted
import Conduit.Value.Order

/-!
# Failures of an evaluation

Every way in which evaluating an expression or running a pipeline can
fail, as a cause with the data that its message shows. Most causes
belong to one of six kinds that callers tell apart; a numeric limit and
a name bound twice belong to none.
-/

namespace Conduit

/-- A value of one kind where another is needed. -/
inductive Mismatch where
  | index (path : String) (actual : Kind)
  | unordered (left right : Kind)
  | nanOrdered
  | operand (operator : String) (position : Nat) (actual : Kind)
  | items (operator : String) (actual : Kind)
  /-- A part of an operator, named in full, has to be an object. -/
  | object (part : String) (actual : Kind)
  /-- A mismatch that a database reports in words of its own. -/
  | reported (text : String)
  deriving DecidableEq, Repr

namespace Mismatch

/-- The kind that was needed and the one that came, where both are known. -/
def kinds? : Mismatch → Option (Kind × Kind)
  | .index _ actual => some (.array, actual)
  | .unordered left right => some (left, right)
  | .nanOrdered => none
  | .operand _ _ actual => some (.number, actual)
  | .items _ actual => some (.array, actual)
  | .object _ actual => some (.object, actual)
  | .reported _ => none

def summary : Mismatch → String
  | .index path _ => "Cannot index into '" ++ path ++ "'"
  | .unordered _ _ => "Cannot compare values of different or unordered kinds"
  | .nanOrdered => "Cannot order NaN values"
  | .operand op position _ => op ++ " operand " ++ toString position ++ " must be a number"
  | .items op _ => op ++ " items must be an array"
  | .object part _ => part ++ " must be an object"
  | .reported text => text

def message (m : Mismatch) : String :=
  match m.kinds? with
  | some (expected, actual) =>
    m.summary ++ " (expected " ++ expected.name ++ ", got " ++ actual.name ++ ")"
  | none => m.summary

end Mismatch

/-- What stopped a database call. -/
inductive StorageFault where
  | noDatabase (operator : String)
  /-- The database broke off with a text. -/
  | broken (operator collection text : String)
  /-- The database ran into a numeric limit. -/
  | limit (operator collection : String) (l : Limit)
  deriving DecidableEq, Repr

namespace StorageFault

def message : StorageFault → String
  | .noDatabase op => op ++ " requires a database provider, none configured"
  | .broken op collection text => op ++ " on '" ++ collection ++ "' failed: " ++ text
  | .limit op collection l => op ++ " on '" ++ collection ++ "' failed: " ++ l.message

end StorageFault

/-- Why a reference inside a schema leads nowhere. A resource is shown as it
is displayed. -/
inductive LostReference where
  | pointer (pointer resource : String)
  | anchor (name resource : String)
  /-- The text after the mark is neither a pointer nor a name. -/
  | badAnchor (name : String)
  | resource (reference : String)
  deriving DecidableEq, Repr

namespace LostReference

def message : LostReference → String
  | .pointer path shown =>
    "PointerToNowhere: " ++ Text.quote path ++ " does not exist within " ++ shown ++
      if path = "/" then
        ". The pointer '/' is a valid JSON Pointer but it points to an empty string " ++
          "property ''. If you intended to point to the entire resource, you should use '#'."
      else ""
  | .anchor name shown =>
    "NoSuchAnchor: " ++ Text.quote name ++ " does not exist within " ++ shown
  | .badAnchor name =>
    "InvalidAnchor: '#" ++ name ++ "' is not a valid anchor, neither as a plain name anchor nor " ++
      "as a JSON Pointer. You may have intended to use '#/" ++ name ++ "', as the slash is " ++
      "required *before each segment* of a JSON pointer."
  | .resource target => "Unresolvable: " ++ target

end LostReference

/-- The kinds of failure that callers tell apart. -/
inductive FailureKind where
  | pathNotFound | typeMismatch | divisionByZero | validationFailed | storage | cancelled
  deriving DecidableEq, Repr

namespace FailureKind

def name : FailureKind → String
  | .pathNotFound => "path_not_found"
  | .typeMismatch => "type_mismatch"
  | .divisionByZero => "division_by_zero"
  | .validationFailed => "validation_failed"
  | .storage => "storage"
  | .cancelled => "cancelled"

end FailureKind

/-- An exception of a class that evaluation knows nothing of, by the name of its
class and its text. -/
structure Exception where
  type : String
  message : String
  deriving DecidableEq, Repr

inductive Failure where
  | pathNotFound (path : String)
  | unknownSchema (name : String)
  | mismatch (m : Mismatch)
  | divisionByZero
  /-- A value does not match a schema, for these reasons. -/
  | schemaViolation (details : List String)
  | lostReference (r : LostReference)
  /-- The schemas that ask each other about a value go deeper than is allowed. -/
  | schemaTooDeep
  | storage (fault : StorageFault)
  | cancelled
  | duplicateBinding (name : String)
  | limit (l : Limit)
  /-- A provider's exception of a class derived from evaluation's own, with the
  kind of that class if it has one. -/
  | provided (kind : Option FailureKind) (e : Exception)
  /-- Any other exception, from what evaluation is built on. -/
  | raised (e : Exception)
  deriving DecidableEq, Repr

namespace Failure

def kind? : Failure → Option FailureKind
  | .pathNotFound _ => some .pathNotFound
  | .unknownSchema _ => some .pathNotFound
  | .mismatch _ => some .typeMismatch
  | .divisionByZero => some .divisionByZero
  | .schemaViolation _ => some .validationFailed
  | .lostReference _ => none
  | .schemaTooDeep => none
  | .storage _ => some .storage
  | .cancelled => some .cancelled
  | .duplicateBinding _ => none
  | .limit _ => none
  | .provided kind _ => kind
  | .raised _ => none

/-- Whether a failure is one of evaluation's own, or of a class derived from
them. The others come from what it is built on: the schema engine, the
template engine, the clock, and the arithmetic of numbers and dates. -/
def isOwn : Failure → Bool
  | .lostReference _ => false
  | .schemaTooDeep => false
  | .limit _ => false
  | .raised _ => false
  | _ => true

def message : Failure → String
  | .pathNotFound path => "Path not found: " ++ path
  | .unknownSchema name => "Unknown schema: '" ++ name ++ "'"
  | .mismatch m => m.message
  | .divisionByZero => "Division by zero"
  | .schemaViolation details =>
    "Value does not match schema" ++ String.join (details.map ("\n  - " ++ ·))
  | .lostReference r => r.message
  | .schemaTooDeep => "maximum recursion depth exceeded"
  | .storage fault => fault.message
  | .cancelled => "Pipeline execution cancelled"
  | .duplicateBinding name => "Duplicate binding: '" ++ name ++ "'"
  | .limit l => l.message
  | .provided _ e => e.message
  | .raised e => e.message

/-- Two values without an order, as a failure. -/
def ofUnordered : Value.Unordered → Failure
  | .kinds left right => .mismatch (.unordered left right)
  | .nan => .mismatch .nanOrdered
  | .limit l => .limit l

end Failure

end Conduit
