/-!
# Named fields

A finite map from names that remembers the order in which the names were
first given: the contents of an object, the bindings of a scope, the
collections of a store. It is a list of pairs; writing an existing name
changes its value in place, writing a new one appends.
-/

namespace Conduit

abbrev Fields (α : Type) := List (String × α)

namespace Fields

variable {α : Type}

def get? (name : String) : Fields α → Option α
  | [] => none
  | (k, v) :: rest => if k = name then some v else get? name rest

def contains (name : String) (fs : Fields α) : Bool := (get? name fs).isSome

def names (fs : Fields α) : List String := fs.map Prod.fst

def values (fs : Fields α) : List α := fs.map Prod.snd

def set (name : String) (v : α) : Fields α → Fields α
  | [] => [(name, v)]
  | (k, w) :: rest => if k = name then (k, v) :: rest else (k, w) :: set name v rest

/-- The fields of `base` with those of `top` written over them, in order. -/
def overlay (base top : Fields α) : Fields α := top.foldl (fun fs p => set p.1 p.2 fs) base

/-- The map that a list of pairs writes, later pairs over earlier ones. -/
def ofPairs (pairs : List (String × α)) : Fields α := overlay [] pairs

end Fields

end Conduit
