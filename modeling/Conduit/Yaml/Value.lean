import Conduit.Value.Order
import Conduit.Yaml.Node.Reader
import Conduit.Yaml.Scalar
import Conduit.Yaml.Layout

/-!
# The value of a document

Nodes as values. A mapping whose keys are all strings is an object. Of
equal keys the last value counts, at the place of the first. What a
mapping merges comes before its own entries, so that these count.

This stands for the safe constructor of PyYAML.
-/

namespace Conduit

namespace Yaml

/-! ## Mappings -/

/-- A key as a number, if booleans are taken for numbers. -/
def numberOf? : Value → Option Number
  | .number n => some n
  | .bool b => some (.int (if b then 1 else 0))
  | _ => none

/-- Whether two keys are one. -/
def isSameKey (k l : Value) : Bool :=
  match numberOf? k, numberOf? l with
  | some m, some n => m.equal n
  | _, _ => k.equal l

/-- The entries with one more, which replaces the value of an equal key. -/
def setEntry (k v : Value) : List (Value × Value) → List (Value × Value)
  | [] => [(k, v)]
  | (l, w) :: rest => if isSameKey k l then (l, v) :: rest else (l, w) :: setEntry k v rest

def fields? : List (Value × Value) → Option (Fields Value)
  | [] => some []
  | (.str name, v) :: rest => (fields? rest).map ((name, v) :: ·)
  | _ => none

/-- The value of entries in order. -/
def ofEntries (entries : List (Value × Value)) : Value :=
  let distinct := entries.foldl (fun es e => setEntry e.1 e.2 es) []
  match fields? distinct with
  | some fs => .obj fs
  | none => .mapping distinct

/-! ## Nodes -/

namespace Node

/-- The text of a scalar, or of the scalar that stands for a mapping. -/
def text? : Node → Option String
  | .scalar _ text => some text
  | .sequence _ _ => none
  | .mapping _ entries => ofValueKey entries
where
  ofValueKey : List (Node × Node) → Option String
    | [] => none
    | (key, v) :: rest => if key.tag = .value then v.text? else ofValueKey rest

/-- The value of a key: a scalar. A value key is then a mere text. -/
def keyValue : Node → Except Error Value
  | .scalar .value text => .ok (.str text)
  | .scalar tag text => Scalar.value tag text
  | _ => .error .malformed

/-- The entries of a mapping: what it merges, and its own. -/
structure Entries where
  merged : List (Value × Value) := []
  own : List (Value × Value) := []

def Entries.all (es : Entries) : List (Value × Value) := es.merged ++ es.own

mutual

def value : Node → Except Error Value
  | .scalar tag text => Scalar.value tag text
  | .sequence tag items =>
    match tag with
    | .seq => do .ok (.arr (← values items))
    | .pairs => do .ok (.arr (← pairs items))
    | _ => .error .malformed
  | .mapping tag entries =>
    match tag with
    | .map => do .ok (ofEntries (← entriesOf entries).all)
    | .seq | .pairs => .error .malformed
    | tag =>
      match (Node.mapping tag entries).text? with
      | some text => Scalar.value tag text
      | none => .error .malformed

def values : List Node → Except Error (List Value)
  | [] => .ok []
  | node :: rest => do
    let v ← node.value
    .ok (v :: (← values rest))

/-- Items that are mappings of one entry each, as pairs. -/
def pairs : List Node → Except Error (List Value)
  | [] => .ok []
  | .mapping _ [(k, v)] :: rest => do
    let pair := Value.arr [← k.value, ← v.value]
    .ok (pair :: (← pairs rest))
  | _ => .error .malformed

def entriesOf : List (Node × Node) → Except Error Entries
  | [] => .ok {}
  | (key, v) :: rest =>
    if key.tag = .merge then do
      let merged ← mergedOf v
      let others ← entriesOf rest
      .ok { others with merged := merged ++ others.merged }
    else do
      let k ← key.keyValue
      let w ← v.value
      let others ← entriesOf rest
      .ok { others with own := (k, w) :: others.own }

/-- What a merge key gives: the entries of a mapping, or of several, of
which the first ones count. -/
def mergedOf : Node → Except Error (List (Value × Value))
  | .mapping _ entries => do .ok (← entriesOf entries).all
  | .sequence _ items => mergedAll items
  | .scalar _ _ => .error .malformed

def mergedAll : List Node → Except Error (List (Value × Value))
  | [] => .ok []
  | .mapping _ entries :: rest => do
    let first ← entriesOf entries
    .ok ((← mergedAll rest) ++ first.all)
  | _ => .error .malformed

end

end Node

/-- The value of the document that a text writes; null if it writes none. -/
def read (cs : List Char) : Except Error Value := do
  match ← Node.ofTokens (← Token.scan cs) with
  | none => .ok .null
  | some node => node.value

end Yaml

end Conduit
