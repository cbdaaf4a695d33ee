import Conduit.Expr.Basic
import Conduit.Failure

/-!
# Databases

A database is asked through four kinds of call. What it keeps to itself
is a state of any type. It answers with a value or with a fault of its
own, and while it works, the run that asked may be cancelled. An object
that is no value is no answer here.
-/

namespace Conduit

inductive Call where
  | query (collection : String) (criteria : Fields Value) (options : QueryOptions)
  | insert (collection : String) (document : Fields Value)
  | update (collection : String) (criteria patch : Fields Value)
  | delete (collection : String) (criteria : Fields Value)
  deriving Inhabited

namespace Call

def collection : Call → String
  | .query c _ _ => c
  | .insert c _ => c
  | .update c _ _ => c
  | .delete c _ => c

/-- The operator that makes such calls. -/
def operator : Call → Operator
  | .query _ _ _ => .dbQuery
  | .insert _ _ => .dbInsert
  | .update _ _ _ => .dbUpdate
  | .delete _ _ => .dbDelete

end Call

/-- How a database breaks off. -/
inductive Fault where
  /-- A failure of evaluation's own, one of a class derived from those
  (`Failure.provided`), or a numeric limit. -/
  | failure (f : Failure)
  /-- Any other exception, by its text. -/
  | broken (text : String)
  deriving DecidableEq, Repr

namespace Fault

/-- A fault as a failure of the evaluation. A failure of evaluation's own
passes through; all else is a failure of the storage. -/
def toFailure (call : Call) : Fault → Failure
  | .failure (.limit l) => .storage (.limit call.operator.name call.collection l)
  | .failure f =>
    if f.isOwn then f else .storage (.broken call.operator.name call.collection f.message)
  | .broken text => .storage (.broken call.operator.name call.collection text)

end Fault

structure Reply where
  result : Except Fault Value
  /-- Whether the run was cancelled while the database worked. -/
  cancels : Bool := false

structure Database (σ : Type) where
  respond : Call → σ → Reply × σ

end Conduit
