import Conduit.Expr.Reader
import Conduit.Pipeline

/-!
# Reading a pipeline

A pipeline is a list of stages; a stage has an expression, and a name if
its value is to be kept.
-/

namespace Conduit

namespace Stage

def read (v : Value) : Reading Stage :=
  match Arguments.of? v with
  | some args =>
    Stage.mk <$> args.nullable ["name"] (Reading.string ·.1)
      <*> args.required ["value"] (Expr.read ·.1)
      <* args.closed [["name"], ["value"]]
  | none => .complain (.notPart "PipelineStep")

end Stage

namespace Pipeline

def read (v : Value) : Reading Pipeline := Reading.list v (Stage.read ·.1)

end Pipeline

end Conduit
