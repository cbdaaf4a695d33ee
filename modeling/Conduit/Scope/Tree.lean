import Conduit.Scope

/-!
# Trees of scopes

Scopes that share what is around them: a binding that is added to a scope
is seen by every scope inside it, at once. Nodes are numbered in the
order in which they were made, and each is made inside an earlier one.
-/

namespace Conduit

structure ScopeNode where
  own : Fields Value
  /-- The number of the node around it. -/
  parent : Option Nat

structure ScopeTree where
  nodes : List ScopeNode

namespace ScopeTree

def ofFields (fields : Fields Value) : ScopeTree := ⟨[⟨fields, none⟩]⟩

/-- The frames of a node and of the nodes around it. -/
def framesOf (t : ScopeTree) (i : Nat) : List (Fields Value) :=
  match t.nodes[i]? with
  | none => []
  | some node =>
    node.own :: match node.parent with
      | some p => if p < i then framesOf t p else []
      | none => []
termination_by i

/-- The scope of a node. -/
def scope (t : ScopeTree) (i : Nat) : Scope :=
  match t.framesOf i with
  | [] => ⟨[], []⟩
  | own :: outer => ⟨own, outer⟩

/-- A further node inside node `i`. -/
def child (t : ScopeTree) (i : Nat) (bindings : Fields Value) : ScopeTree :=
  ⟨t.nodes ++ [⟨bindings, some i⟩]⟩

/-- A further binding at node `i`. -/
def bind (t : ScopeTree) (i : Nat) (name : String) (v : Value) : Except Failure ScopeTree :=
  match (t.scope i).bind name v with
  | .error f => .error f
  | .ok s => .ok ⟨t.nodes.modify i fun node => { node with own := s.own }⟩

end ScopeTree

end Conduit
