import Conduit.Failure
import Conduit.Path.Basic
import Conduit.Value.Text

/-!
# Template engines

What stands in a tag that prints is written in the language of the template
engine, which is not part of the evaluation. An engine is given with the host:
it compiles the tags of a template, and it tells what the expressions of a tag
come to when the tag is carried out. Text and placeholders need no engine.
-/

namespace Conduit

namespace Template

/-- The text of a tag as an engine gets it, where a placeholder is shown by its
number. -/
structure TagSource where
  chars : List Char
  /-- The length of the template after the tag, by which tags of one text are
  told apart. -/
  after : Nat
  deriving DecidableEq, Repr

/-- What an expression in a tag comes to: a value, or an object for which JSON
has only a text that describes it. -/
inductive Printed where
  | value (v : Value)
  | object (text : String)

/-- What a value puts into a text: a string as it is, any other value as
JSON. -/
def insertion : Value → Except Limit String
  | .str s => .ok s
  | v => v.json

/-- What is put into a text for what an expression comes to. -/
def Printed.insertion : Printed → Except Limit String
  | .value v => Template.insertion v
  | .object text => (Value.str text).json

end Template

/-- An engine is handed what the paths of the placeholders lead to. These are
objects, and an object has more to it than its value, such as whether it is the
same as another. What a tag prints may therefore depend on the paths and on all
the fields that they lead into. It leaves these as they are. -/
structure Engine where
  /-- What is wrong with a tag, if it cannot be compiled. -/
  compile : Template.TagSource → Except Exception Unit
  /-- What the expressions of a tag come to, one after another. -/
  print : Template.TagSource → List DotPath → Fields Value →
    List (Except Exception Template.Printed)

/-- An engine for templates without tags. -/
def Engine.idle : Engine := ⟨fun _ => .ok (), fun _ _ _ => []⟩

end Conduit
