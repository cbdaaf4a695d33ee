import Conduit.Database
import Conduit.Slice

/-!
# A store in memory

Collections of documents, each kept in the order of insertion. Criteria
match a document in which each of their fields is present with an equal
value. Results are sorted stably, documents without the sort field last
in either direction, and values that have no order cannot be sorted.
-/

namespace Conduit

abbrev Document := Fields Value

structure Store where
  collections : Fields (List Document) := []
  /-- The field that a new document gets if it lacks it. -/
  idField : String := "id"
  /-- What is given out as ids, one after another. -/
  ids : Nat → Value
  /-- The number of ids given out so far. -/
  issued : Nat := 0
  deriving Inhabited

namespace Store

def documents (s : Store) (collection : String) : List Document :=
  (s.collections.get? collection).getD []

/-- Whether a document has all the given fields with equal values. -/
def isMatch (criteria : Fields Value) (d : Document) : Bool :=
  criteria.all fun p => (d.get? p.1).any fun v => v.equal p.2

def matching (s : Store) (collection : String) (criteria : Fields Value) : List Document :=
  (s.documents collection).filter (isMatch criteria)

/-! ## Sorting -/

/-- The value that a document is sorted by; null is none. -/
def sortValue? (key : String) (d : Document) : Option Value :=
  match d.get? key with
  | some .null => none
  | v => v

/-- Why values cannot be sorted: the first of them, from the second on,
that has no order with the first. A sort of many values may meet another
two first; only that there are such two is meant to hold of every sort. -/
def sortFault? : List Value → Option Value.Unordered
  | [] => none
  | first :: rest => rest.findSome? fun v =>
    match v.compare first with
    | .ok _ => none
    | .error e => some e

/-- Whether `v` may stand before `w`. -/
def inOrder (order : SortOrder) (v w : Value) : Bool :=
  let (low, high) := match order with
    | .asc => (v, w)
    | .desc => (w, v)
  match low.compare high with
  | .ok .gt => false
  | _ => true

/-- The documents that have a sort value, with it. -/
def present (key : String) (rows : List Document) : List (Value × Document) :=
  rows.filterMap fun d => (sortValue? key d).map fun v => (v, d)

/-- Rows sorted by one field. -/
def sortBy (key : String) (order : SortOrder) (rows : List Document) :
    Except Value.Unordered (List Document) :=
  let keyed := present key rows
  let values := keyed.map Prod.fst
  match sortFault? (match order with
      | .asc => values
      | .desc => values.reverse) with
  | some e => .error e
  | none =>
    let sorted := keyed.mergeSort fun p q => inOrder order p.1 q.1
    .ok (sorted.map Prod.snd ++ rows.filter fun d => (sortValue? key d).isNone)

/-- Rows sorted by several fields, the first of them counting most. -/
def sortAll : List (String × SortOrder) → List Document → Except Value.Unordered (List Document)
  | [], rows => .ok rows
  | (key, order) :: rest, rows => do sortBy key order (← sortAll rest rows)

/-! ## Calls -/

def skipRows (skip : Option Int) (rows : List Document) : List Document :=
  (Slice.mk skip none none).apply rows

def limitRows (limit : Option Int) (rows : List Document) : List Document :=
  (Slice.mk none limit none).apply rows

/-- The given fields of a document, in their given order. -/
def project (fields : List String) (d : Document) : Document :=
  Fields.ofPairs (fields.filterMap fun name => (d.get? name).map fun v => (name, v))

def query (s : Store) (collection : String) (criteria : Fields Value) (options : QueryOptions) :
    Except Value.Unordered (List Document) := do
  let rows ← sortAll (options.sort.getD []) (s.matching collection criteria)
  let rows := limitRows options.limit (skipRows options.skip rows)
  .ok (match options.select with
    | some fields => rows.map (project fields)
    | none => rows)

/-- A document as it is stored, with an id. -/
def identified (s : Store) (d : Document) : Document × Nat :=
  if d.contains s.idField then (d, s.issued)
  else (d.set s.idField (s.ids s.issued), s.issued + 1)

def insert (s : Store) (collection : String) (d : Document) : Document × Store :=
  let (stored, issued) := s.identified d
  (stored, { s with
    collections := s.collections.set collection (s.documents collection ++ [stored]), issued })

/-- Documents with the patch written over those that match. -/
def patched (criteria patch : Fields Value) (rows : List Document) : List Document :=
  rows.map fun d => if isMatch criteria d then d.overlay patch else d

/-- The number of documents that were changed, and the store after. A
collection that is not there stays away. -/
def update (s : Store) (collection : String) (criteria patch : Fields Value) : Nat × Store :=
  match s.collections.get? collection with
  | none => (0, s)
  | some rows =>
    (rows.countP (isMatch criteria),
      { s with collections := s.collections.set collection (patched criteria patch rows) })

/-- The number of documents that were removed, and the store after. -/
def delete (s : Store) (collection : String) (criteria : Fields Value) : Nat × Store :=
  let rows := s.documents collection
  (rows.countP (isMatch criteria), { s with
    collections := s.collections.set collection (rows.filter fun d => !isMatch criteria d) })

/-- The answer to a call, and the store after it. -/
def perform (s : Store) : Call → Except Value.Unordered Value × Store
  | .query collection criteria options =>
    ((s.query collection criteria options).map fun rows => .arr (rows.map .obj), s)
  | .insert collection document =>
    let (stored, after) := s.insert collection document
    (.ok (.obj stored), after)
  | .update collection criteria patch =>
    let (count, after) := s.update collection criteria patch
    (.ok (.int count), after)
  | .delete collection criteria =>
    let (count, after) := s.delete collection criteria
    (.ok (.int count), after)

/-- The store as a database. -/
def database : Database Store where
  respond call s :=
    let (result, after) := s.perform call
    ({ result := result.mapError fun e => .failure (.ofUnordered e) }, after)

end Store

end Conduit
