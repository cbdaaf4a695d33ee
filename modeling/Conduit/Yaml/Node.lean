import Conduit.Yaml.Tag

/-!
# Nodes

A document as a tree in which every node has a tag and every alias has
been replaced by what it stands for.

This is the tree that PyYAML composes.
-/

namespace Conduit

namespace Yaml

inductive Node where
  | scalar (tag : Tag) (text : String)
  | sequence (tag : Tag) (items : List Node)
  | mapping (tag : Tag) (entries : List (Node × Node))

namespace Node

/-- What stands where nothing is written. -/
def empty : Node := .scalar .null ""

instance : Inhabited Node := ⟨empty⟩

def tag : Node → Tag
  | .scalar t _ => t
  | .sequence t _ => t
  | .mapping t _ => t

end Node

end Yaml

end Conduit
