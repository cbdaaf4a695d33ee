import Conduit.Fields
import Conduit.Number

/-!
# Values

The data that expressions read and produce: what JSON can write, and the
two things that only YAML documents add, calendar dates and mappings
whose keys are not all strings.

A value has no identity and never changes. That two places hold one object,
or that an object is changed where it is held, is not expressed here.
-/

namespace Conduit

inductive Value where
  | null
  | bool (b : Bool)
  | number (n : Number)
  | str (s : String)
  | date (iso : String)
  | arr (items : List Value)
  | obj (fields : List (String × Value))
  /-- A mapping with at least one key that is not a string. -/
  | mapping (entries : List (Value × Value))
  deriving Inhabited, Repr

/-- The kind of a value, as error messages name it. -/
inductive Kind where
  | null | boolean | number | string | date | array | object
  deriving DecidableEq, Repr

namespace Kind

def name : Kind → String
  | .null => "null"
  | .boolean => "boolean"
  | .number => "number"
  | .string => "string"
  | .date => "date"
  | .array => "array"
  | .object => "object"

end Kind

namespace Value

def int (n : Int) : Value := .number (.int n)

def kind : Value → Kind
  | .null => .null
  | .bool _ => .boolean
  | .number _ => .number
  | .str _ => .string
  | .date _ => .date
  | .arr _ => .array
  | .obj _ => .object
  | .mapping _ => .object

/-- The name by which messages about misplaced arguments call the type of
a value. -/
def typeName : Value → String
  | .null => "NoneType"
  | .bool _ => "bool"
  | .number (.int _) => "int"
  | .number (.double _) => "float"
  | .str _ => "str"
  | .date _ => "date"
  | .arr _ => "list"
  | .obj _ => "dict"
  | .mapping _ => "dict"

def isNumber (v : Value) : Bool := v.kind = .number

def isNull (v : Value) : Bool := v.kind = .null

/-- Null, false, zero and everything empty is falsy, all else truthy. -/
def truthy : Value → Bool
  | .null => false
  | .bool b => b
  | .number n => !n.isZero
  | .str s => s ≠ ""
  | .date _ => true
  | .arr xs => !xs.isEmpty
  | .obj fs => !fs.isEmpty
  | .mapping es => !es.isEmpty

/-! ## Contents -/

/-- A field of an object by its name. -/
def field? (name : String) : Value → Option Value
  | .obj fs => Fields.get? name fs
  | .mapping es => (es.find? fun e => match e.1 with
      | .str k => k == name
      | _ => false).map Prod.snd
  | _ => none

/-- The keys and values of an object. -/
def entries? : Value → Option (List (Value × Value))
  | .obj fs => some (fs.map fun p => (.str p.1, p.2))
  | .mapping es => some es
  | _ => none

/-! ## Size

The measure by which a reader of values gets to smaller ones. -/

mutual

def size : Value → Nat
  | .arr xs => 1 + sizeItems xs
  | .obj fs => 1 + sizeFields fs
  | .mapping es => 1 + sizeEntries es
  | _ => 1

def sizeItems : List Value → Nat
  | [] => 0
  | x :: xs => size x + sizeItems xs

def sizeFields : List (String × Value) → Nat
  | [] => 0
  | (_, v) :: rest => size v + sizeFields rest

def sizeEntries : List (Value × Value) → Nat
  | [] => 0
  | (k, v) :: rest => size k + size v + sizeEntries rest

end

theorem size_le_sizeItems {x : Value} {xs : List Value} (h : x ∈ xs) : x.size ≤ sizeItems xs := by
  induction xs with
  | nil => cases h
  | cons y ys ih =>
    rw [sizeItems]
    cases h with
    | head => exact Nat.le_add_right _ _
    | tail _ h => exact Nat.le_trans (ih h) (Nat.le_add_left _ _)

end Value

end Conduit
