import Conduit.Failure
import Conduit.Path.Basic
import Conduit.Text.Numeral

/-!
# Following a dot path

A field step reads a field of an object, or, when its name is written in
digits, an element of an array. An index step reads an element of an
array and nothing else. A path stops at the first step that leads
nowhere; the failure shows the path's whole text.
-/

namespace Conduit

namespace Value

/-- Whether a field name is a position in an array: ASCII digits only. -/
def isPosition (name : String) : Bool :=
  name ≠ "" && name.toList.all Char.isDigit

def positionOf (name : String) : Except Limit Nat :=
  if Limit.numeralDigits < name.length then .error (.longNumeral name.length)
  else .ok (Text.decimalValue name.toList)

/-- An element of an array by its index, a negative one from the end. -/
def element? (xs : List Value) (i : Int) : Option Value :=
  if 0 ≤ i then xs[i.toNat]?
  else if (-i).toNat ≤ xs.length then xs[xs.length - (-i).toNat]?
  else none

end Value

namespace Step

/-- The value that one step leads to; `path` is what failures show. -/
def follow (path : String) : Step → Value → Except Failure Value
  | .field name, .arr xs =>
    if Value.isPosition name then
      match Value.positionOf name with
      | .error l => .error (.limit l)
      | .ok n => match xs[n]? with
        | some v => .ok v
        | none => .error (.pathNotFound path)
    else .error (.pathNotFound path)
  | .field name, v =>
    match v.field? name with
    | some w => .ok w
    | none => .error (.pathNotFound path)
  | .index i, .arr xs =>
    match Value.element? xs i with
    | some v => .ok v
    | none => .error (.pathNotFound path)
  | .index _, v => .error (.mismatch (.index path v.kind))

end Step

namespace DotPath

/-- The value at the end of the steps from `v`. -/
def follow (path : String) : List Step → Value → Except Failure Value
  | [], v => .ok v
  | s :: rest, v => do follow path rest (← s.follow path v)

/-- The value that a path names in the object of the given fields. -/
def resolve (p : DotPath) (fields : Fields Value) : Except Failure Value :=
  match Fields.get? p.head fields with
  | some v => follow p.text p.rest v
  | none => .error (.pathNotFound p.text)

end DotPath

end Conduit
