import Conduit.Value.Basic

/-!
# Equality and order of values

Equality is structural and never crosses kinds: `1` equals `1.0` but not
`"1"` and not `true`; the order of an object's keys does not count.
An order is defined between two numbers and between two strings only.
-/

namespace Conduit

namespace Value

/-! ## Equality -/

mutual

def equal : Value → Value → Bool
  | .null, .null => true
  | .bool a, .bool b => a == b
  | .number m, .number n => m.equal n
  | .str s, .str t => s == t
  | .date d, .date e => d == e
  | .arr xs, .arr ys => equalItems xs ys
  | .obj fs, .obj gs => fs.length == gs.length && equalFields fs gs
  | .mapping es, .mapping ds => es.length == ds.length && equalEntries es ds
  | _, _ => false

def equalItems : List Value → List Value → Bool
  | [], [] => true
  | x :: xs, y :: ys => equal x y && equalItems xs ys
  | _, _ => false

/-- Each field has an equal one of the same name in `gs`. -/
def equalFields : List (String × Value) → List (String × Value) → Bool
  | [], _ => true
  | (k, v) :: rest, gs =>
    (match Fields.get? k gs with
      | some w => equal v w
      | none => false) && equalFields rest gs

/-- Each entry has an equal one in `ds`. -/
def equalEntries : List (Value × Value) → List (Value × Value) → Bool
  | [], _ => true
  | (k, v) :: rest, ds => (ds.any fun d => equal k d.1 && equal v d.2) && equalEntries rest ds

end

/-! ## Order -/

inductive Unordered where
  | kinds (left right : Kind)
  | nan
  | limit (l : Limit)
  deriving DecidableEq, Repr

/-- The exact order of two numbers. Both are first looked at as doubles,
left before right, to find out whether one is NaN. -/
def compareNumbers (x y : Number) : Except Unordered Ordering := do
  if ← (x.isNaN).mapError .limit then throw .nan
  if ← (y.isNaN).mapError .limit then throw .nan
  match x.extended?, y.extended? with
  | some a, some b => pure (a.compare b)
  | _, _ => throw .nan

/-- Strings go by code points. -/
def compareStrings (s t : String) : Ordering :=
  if s < t then .lt else if t < s then .gt else .eq

def compare : Value → Value → Except Unordered Ordering
  | .number x, .number y => compareNumbers x y
  | .str s, .str t => pure (compareStrings s t)
  | v, w => throw (.kinds v.kind w.kind)

end Value

end Conduit
