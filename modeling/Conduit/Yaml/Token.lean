/-!
# Tokens

The parts of a YAML text. Layout has become tokens of its own: the start
and end of every block, and the mark of every key, wherever it was only
to be told from what came behind it.

These are the tokens of PyYAML.
-/

namespace Conduit

namespace Yaml

/-- A line that says how the document is to be read. -/
inductive Directive where
  /-- The version of the language. -/
  | version (major : Nat)
  /-- What the handle of tags stands for. -/
  | tagHandle (handle meaning : String)
  | other
  deriving DecidableEq, Repr

inductive Token where
  | directive (d : Directive)
  | documentStart | documentEnd
  | blockSequenceStart | blockMappingStart | blockEnd
  | flowSequenceStart | flowSequenceEnd
  | flowMappingStart | flowMappingEnd
  | blockEntry | flowEntry
  | key | value
  | alias (name : String)
  | anchor (name : String)
  /-- A tag: what stands behind its handle, if it has one. -/
  | tag (handle : Option String) (suffix : String)
  | scalar (text : String) (plain : Bool)
  deriving DecidableEq, Repr

end Yaml

end Conduit
