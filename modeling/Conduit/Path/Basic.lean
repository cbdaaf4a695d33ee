import Conduit.Limit

/-!
# Dot paths

A dot path such as `items[0].name` names a place inside nested data: a
first name, then steps into fields of objects and elements of arrays. It
keeps the text it was read from, which messages about it show.
-/

namespace Conduit

/-- One step into a value. A negative index counts from the end. -/
inductive Step where
  | field (name : String)
  | index (i : Int)
  deriving DecidableEq, Repr, Inhabited

structure DotPath where
  text : String
  head : String
  rest : List Step
  deriving DecidableEq, Repr, Inhabited

namespace DotPath

def steps (p : DotPath) : List Step := .field p.head :: p.rest

end DotPath

/-- Why a text is no path, or why steps have no path text. -/
inductive PathError where
  | empty
  | bracketAfterPoint (text : String)
  | malformedBracket (text : String) (offset : Nat)
  | noFirstName (text : String)
  | emptySegment (text : String) (offset : Nat)
  | unexpected (c : Char) (text : String) (offset : Nat)
  | endsWithPoint (text : String)
  /-- A segment of this name is no step of a dot path. -/
  | notAStep (segment : String)
  | limit (l : Limit)
  deriving DecidableEq, Repr

namespace PathError

def message : PathError → String
  | .empty => "Empty path"
  | .bracketAfterPoint text => "Unexpected '[' after '.' in path '" ++ text ++ "'"
  | .malformedBracket text offset =>
    "Malformed bracket in path '" ++ text ++ "' at " ++ toString offset
  | .noFirstName text => "Path '" ++ text ++ "' must start with a name"
  | .emptySegment text offset => "Empty segment in path '" ++ text ++ "' at " ++ toString offset
  | .unexpected c text offset =>
    "Unexpected '" ++ c.toString ++ "' in path '" ++ text ++ "' at " ++ toString offset
  | .endsWithPoint text => "Path '" ++ text ++ "' ends with '.'"
  | .notAStep segment => segment ++ " segments cannot appear in a dot path"
  | .limit l => l.message

end PathError

end Conduit
