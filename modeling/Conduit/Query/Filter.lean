import Conduit.Comparison
import Conduit.Path.Basic

/-!
# Filters

The condition of a filter segment, as a tree. From loosest to tightest
bind `||`, `&&`, `!`, and one comparison between two operands. A path
on its own asks whether it leads to a value; as an operand it stands for
that value.
-/

namespace Conduit

namespace Query

inductive Filter where
  | literal (v : Value)
  | path (p : DotPath)
  /-- The path leads to a value other than null. -/
  | present (p : DotPath)
  | compare (op : Comparison) (left right : Filter)
  | not (operand : Filter)
  | and (operands : List Filter)
  | or (operands : List Filter)
  deriving Inhabited

end Query

end Conduit
