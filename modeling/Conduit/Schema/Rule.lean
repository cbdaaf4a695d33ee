import Conduit.Failure
import Conduit.Reading.Issue
import Conduit.Schema.Check
import Conduit.Value.Text

/-!
# Rules about one value

The keywords of a schema that look at a value without asking another
schema about any part of it: its type, its size, its range, its text and
the names of its fields. A keyword that does not fit the type of a value
has nothing to say about it.

This stands for keywords of jsonschema, whose messages are those here.
-/

namespace Conduit

namespace Schema

/-- A rule that a value breaks, with the way to the value. -/
structure Violation where
  place : List Crumb
  message : String
  deriving DecidableEq, Repr

namespace Violation

def crumbText : Crumb → String
  | .key name => name
  | .position i => toString i

/-- The message behind the place, if the place has a text. -/
def text (v : Violation) : String :=
  let place := "/".intercalate (v.place.map crumbText)
  if place.isEmpty then v.message else place ++ ": " ++ v.message

end Violation

/-- What a check comes to: the violations in the order in which they are
found, and the failure that broke the check off, if one did. -/
structure Findings where
  violations : List Violation
  failure? : Option Failure

namespace Findings

def clean : Findings := ⟨[], none⟩

def ofViolations (vs : List Violation) : Findings := ⟨vs, none⟩

/-- Findings that first take a calculation, which may fail. -/
def after : Except Failure Findings → Findings
  | .ok found => found
  | .error e => ⟨[], some e⟩

/-- A violation at the value itself, unless the rule holds. -/
def require (holds : Bool) (message : Except Failure String) : Findings :=
  if holds then clean else after (message.map fun m => ofViolations [⟨[], m⟩])

/-- The findings at a part, seen from the whole. -/
def atPart (crumb : Crumb) (found : Findings) : Findings :=
  { found with violations := found.violations.map fun v => { v with place := crumb :: v.place } }

/-- The findings about each of several things, up to the first failure. -/
def gather {α : Type} (check : α → Findings) : List α → Findings
  | [] => clean
  | x :: rest =>
    let first := check x
    match first.failure? with
    | some _ => first
    | none =>
      let others := gather check rest
      ⟨first.violations ++ others.violations, others.failure?⟩

/-- The violations of a check that has to come to its end. -/
def all (found : Findings) : Except Failure (List Violation) :=
  match found.failure? with
  | some e => .error e
  | none => .ok found.violations

/-- Whether there is nothing wrong. A violation settles it, also before a
failure. -/
def isClean (found : Findings) : Except Failure Bool :=
  if found.violations.isEmpty then found.all.map fun _ => true else .ok false

end Findings

open Findings (clean require gather atPart)

def display (v : Value) : Except Failure String := v.display.mapError .limit

/-- A value and what is wrong with it. -/
def about (v : Value) (rest : String) : Except Failure String := do .ok ((← display v) ++ rest)

/-- A value, what is wrong with it, and the value of the keyword. -/
def aboutBound (v : Value) (relation : String) (bound : Value) : Except Failure String := do
  .ok ((← display v) ++ relation ++ (← display bound))

def displayAll : List Value → Except Failure String
  | [] => .ok ""
  | [v] => display v
  | v :: rest => do .ok ((← display v) ++ ", " ++ (← displayAll rest))

def fieldsOf? : Value → Option (Fields Value)
  | .obj fs => some fs
  | .mapping es => some (es.filterMap fun e => match e.1 with
      | .str key => some (key, e.2)
      | _ => none)
  | _ => none

def itemsOf? : Value → Option (List Value)
  | .arr xs => some xs
  | _ => none

/-! ## Types -/

def hasType (v : Value) : String → Bool
  | "array" => v.kind = .array
  | "boolean" => v.kind = .boolean
  | "integer" => match v with
    | .number n => isWhole n
    | _ => false
  | "null" => v.isNull
  | "number" => v.isNumber
  | "object" => v.kind = .object
  | "string" => v.kind = .string
  | _ => false

def typeRule (types v : Value) : Findings :=
  let admitted := (itemsOf? types).getD [types]
  require (admitted.any fun t => match t with
      | .str name => hasType v name
      | _ => false)
    (do .ok ((← display v) ++ " is not of type " ++ (← displayAll admitted)))

def constRule (expected v : Value) : Findings :=
  require (v.equal expected) (do .ok ((← display expected) ++ " was expected"))

def enumRule (admitted v : Value) : Findings :=
  require (((itemsOf? admitted).getD []).any v.equal) (aboutBound v " is not one of " admitted)

/-! ## Numbers -/

/-- A rule that a number be in a range. -/
def rangeRule (outside : Number → Number → Bool) (relation : String) (bound v : Value) : Findings :=
  match bound, v with
  | .number b, .number n => require (!outside n b) (aboutBound v relation bound)
  | _, _ => clean

/-- Whether a number is a whole multiple of a positive one. By a double
the quotient of doubles decides, require it is too large for one. -/
def isMultiple (n by_ : Number) : Except Limit Bool :=
  match n, by_ with
  | .int m, .int d => .ok (m % d = 0)
  | .double x, .int d => do
    match x, ← (Number.int d).toDouble with
    | .finite _ m e, .finite _ p f =>
      let low := min e f
      .ok (Double.lowerTo m e low % Double.lowerTo p f low = 0)
    | _, _ => .ok false
  | n, .double d => do
    match (← n.toDouble).div d, ← n.toDouble, d with
    | .infinite _, .finite _ m e, .finite _ p f =>
      let low := min e f
      .ok (Double.lowerTo m e low % Double.lowerTo p f low = 0)
    | q, _, _ => .ok q.toInt?.isSome

def multipleRule (bound v : Value) : Findings :=
  match bound, v with
  | .number b, .number n =>
    .after do
      let holds ← (isMultiple n b).mapError .limit
      .ok (require holds (aboutBound v " is not a multiple of " bound))
  | _, _ => clean

/-! ## Sizes -/

/-- How large a value is by the keywords about strings, arrays or objects. -/
inductive Measure where
  | length | items | properties
  deriving DecidableEq, Repr

def sizeOf? : Measure → Value → Option Nat
  | .length, .str s => some s.length
  | .items, .arr xs => some xs.length
  | .properties, v => match v with
    | .obj fs => some fs.length
    | .mapping es => some es.length
    | _ => none
  | _, _ => none

def leastRule (m : Measure) (bound v : Value) : Findings :=
  match bound, sizeOf? m v with
  | .number b, some size =>
    require (!isLess (.int size) b) (about v (
      if b.equal (.int 1) then " should be non-empty"
      else if m = .properties then " does not have enough properties"
      else " is too short"))
  | _, _ => clean

def mostRule (m : Measure) (bound v : Value) : Findings :=
  match bound, sizeOf? m v with
  | .number b, some size =>
    require (!isLess b (.int size)) (about v (
      if b.equal (.int 0) then " is expected to be empty"
      else if m = .properties then " has too many properties"
      else " is too long"))
  | _, _ => clean

def uniqueRule (wanted v : Value) : Findings :=
  match itemsOf? v with
  | some xs => require (!wanted.truthy || allDistinct xs) (about v " has non-unique elements")
  | none => clean

/-! ## Text -/

def patternRule (pattern v : Value) : Findings :=
  match pattern, v with
  | .str p, .str s => require (matchesText p s) (aboutBound v " does not match " pattern)
  | _, _ => clean

/-! ## Names -/

/-- A violation for each of the names that an object lacks. -/
def lacking (fields : Fields Value) (message : String → String) (names : List Value) :
    List Violation :=
  names.filterMap fun
    | .str name => if fields.contains name then none else some ⟨[], message name⟩
    | _ => none

def requiredRule (names v : Value) : Findings :=
  match fieldsOf? v with
  | some fields =>
    .ofViolations (lacking fields (fun name => Text.quote name ++ " is a required property")
      ((itemsOf? names).getD []))
  | none => clean

/-- The names that an object lacks because it has another one. -/
def dependencyNames (fields : Fields Value) (owner : String) (names : List Value) :
    List Violation :=
  lacking fields (fun name => Text.quote name ++ " is a dependency of " ++ Text.quote owner) names

def dependentRule (dependencies v : Value) : Findings :=
  match fieldsOf? v with
  | some fields =>
    .ofViolations (((fieldsOf? dependencies).getD []).flatMap fun p =>
      if fields.contains p.1 then dependencyNames fields p.1 ((itemsOf? p.2).getD []) else [])
  | none => clean

/-- What a keyword that needs no other schema finds; none if it is not
such a keyword of the draft. -/
def plainRule? (d : Draft) (keyword : String) (bound v : Value) : Option Findings :=
  match keyword with
  | "type" => some (typeRule bound v)
  | "const" => some (constRule bound v)
  | "enum" => some (enumRule bound v)
  | "minimum" => some (rangeRule isLess " is less than the minimum of " bound v)
  | "maximum" =>
    some (rangeRule (fun n b => isLess b n) " is greater than the maximum of " bound v)
  | "exclusiveMinimum" =>
    some (rangeRule isAtMost " is less than or equal to the minimum of " bound v)
  | "exclusiveMaximum" =>
    some (rangeRule (fun n b => isAtMost b n)
      " is greater than or equal to the maximum of " bound v)
  | "multipleOf" => some (multipleRule bound v)
  | "minLength" => some (leastRule .length bound v)
  | "maxLength" => some (mostRule .length bound v)
  | "minItems" => some (leastRule .items bound v)
  | "maxItems" => some (mostRule .items bound v)
  | "minProperties" => some (leastRule .properties bound v)
  | "maxProperties" => some (mostRule .properties bound v)
  | "uniqueItems" => some (uniqueRule bound v)
  | "pattern" => some (patternRule bound v)
  | "required" => some (requiredRule bound v)
  | "dependentRequired" => if d = .later then some (dependentRule bound v) else none
  | _ => none

end Schema

end Conduit
