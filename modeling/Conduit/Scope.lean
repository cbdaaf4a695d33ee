import Conduit.Failure
import Conduit.Path.Walk

/-!
# Scopes

A scope is what names mean at one place of an evaluation: bindings of its
own over those of the scopes around it. Bindings are only ever added. A
name that is bound again in an inner scope hides the outer binding.
-/

namespace Conduit

/-- The frames of a scope, from its own one outwards. -/
structure Scope where
  own : Fields Value
  outer : List (Fields Value) := []
  deriving Inhabited

/-- The names that a request binds. -/
def reservedNames : List String := ["params", "query", "headers", "body"]

/-- What a request brings along. -/
structure Request where
  params : Fields Value := []
  query : Fields Value := []
  headers : Fields Value := []
  body : Value := .null

namespace Scope

def ofFields (fields : Fields Value) : Scope := { own := fields }

/-- The scope that a request starts with; a request without a body leaves
that name unbound. -/
def ofRequest (r : Request) : Scope :=
  ofFields ([("params", .obj r.params), ("query", .obj r.query), ("headers", .obj r.headers)] ++
    match r.body with
    | .null => []
    | body => [("body", body)])

def frames (s : Scope) : List (Fields Value) := s.own :: s.outer

/-- The innermost binding of a name among frames. -/
def lookup (name : String) : List (Fields Value) → Option Value
  | [] => none
  | frame :: rest =>
    match frame.get? name with
    | some v => some v
    | none => lookup name rest

def get? (name : String) (s : Scope) : Option Value := lookup name s.frames

def contains (name : String) (s : Scope) : Bool := (s.get? name).isSome

/-- A scope inside `s` with bindings of its own. -/
def child (bindings : Fields Value) (s : Scope) : Scope := ⟨bindings, s.frames⟩

/-- A further binding. A name that is visible cannot be bound. -/
def bind (name : String) (v : Value) (s : Scope) : Except Failure Scope :=
  if s.contains name then .error (.duplicateBinding name)
  else .ok { s with own := Fields.set name v s.own }

/-- Frames as one, outer bindings first and inner ones over them. -/
def flatten : List (Fields Value) → Fields Value
  | [] => []
  | frame :: outer => (flatten outer).overlay frame

def toFields (s : Scope) : Fields Value := flatten s.frames

def names (s : Scope) : List String := s.toFields.names

/-- The value that a path leads to from its first name. -/
def resolve (p : DotPath) (s : Scope) : Except Failure Value :=
  match s.get? p.head with
  | some v => DotPath.follow p.text p.rest v
  | none => .error (.pathNotFound p.text)

end Scope

end Conduit
