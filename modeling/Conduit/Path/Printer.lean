import Conduit.Path.Basic
import Conduit.Text.Backslash
import Conduit.Value.Text

/-!
# Writing a dot path

Steps are written so that reading gives them back: a name of ordinary
characters after a point, any other name in brackets and single quotes,
an index in brackets.
-/

namespace Conduit

namespace Step

/-- A character that a name outside brackets may hold. -/
def isPlainChar (c : Char) : Bool :=
  !(c = '.' || c = '[' || c = ']' || c = '\'' || c = '"' || c = '\\')

def isPlainName (name : String) : Bool := name ≠ "" && name.toList.all isPlainChar

/-- One step as it stands in a path; only the first has no point. -/
def text (first : Bool) : Step → Except Limit String
  | .index i => do .ok ("[" ++ (← (Number.int i).text .plain) ++ "]")
  | .field name =>
    if isPlainName name then .ok (if first then name else "." ++ name)
    else .ok ("['" ++ String.ofList (Text.escape '\'' name.toList) ++ "']")

end Step

namespace DotPath

/-- The texts of steps, the first one at the start of the path if `first`
holds. -/
def formatSteps (first : Bool) : List Step → Except Limit (List String)
  | [] => .ok []
  | s :: rest => do
    let head ← s.text first
    let tail ← formatSteps false rest
    .ok (head :: tail)

def format (steps : List Step) : Except Limit String := do
  .ok (String.join (← formatSteps true steps))

end DotPath

end Conduit
