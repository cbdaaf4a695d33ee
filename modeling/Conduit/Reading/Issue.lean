import Conduit.Value.Text

/-!
# Issues of a document

What is wrong with a document, and where. Reading a document does not
stop at the first thing that is wrong, so an issue carries the place it
was found at: the keys and positions that lead there from the top.

These are the error types, places and messages of Pydantic.
-/

namespace Conduit

/-- One step on the way to a place in a document. -/
inductive Crumb where
  | key (name : String)
  | position (i : Int)
  deriving DecidableEq, Repr

namespace Crumb

/-- Positions are signed words. -/
def isWord (i : Int) : Bool := -0x8000000000000000 ≤ i && i < 0x8000000000000000

/-- The crumb of a key that may be no string. -/
def ofKey : Value → Crumb
  | .str name => .key name
  | .bool b => .position (if b then 1 else 0)
  | .number (.int i) =>
    if isWord i then .position i
    else .key (((Value.int i).display.toOption).getD "<unprintable int object>")
  | v => .key (v.display.toOption.getD "<unprintable object>")

end Crumb

/-- The kinds of thing that can be wrong at a place. -/
inductive Complaint where
  | missing
  | extra
  | notString | notInteger | notList | notObject | notBoolean
  /-- The part of a document that needs an object here. -/
  | notPart (name : String)
  | unreadableInteger | hugeInteger | fractional | infinite | negative
  | unreadableBoolean
  /-- None of the admitted words. -/
  | notAWord (admitted : List String)
  | tooFew (least actual : Nat)
  | tooMany (most actual : Nat)
  | unknownTag (tag : String) (admitted : List String)
  | keyNotString
  /-- A rule of the library is broken. -/
  | broken (rule : String)
  deriving DecidableEq, Repr

namespace Complaint

/-- Words in quotes. -/
def quoted (words : List String) : List String := words.map fun w => "'" ++ w ++ "'"

/-- A list of words whose last is set off by "or". -/
def alternatives : List String → String
  | [] => ""
  | [a] => a
  | [a, b] => a ++ " or " ++ b
  | a :: rest => a ++ ", " ++ alternatives rest

def code : Complaint → String
  | .missing => "missing"
  | .extra => "extra_forbidden"
  | .notString => "string_type"
  | .notInteger => "int_type"
  | .notList => "list_type"
  | .notObject => "dict_type"
  | .notBoolean => "bool_type"
  | .notPart _ => "model_type"
  | .unreadableInteger => "int_parsing"
  | .hugeInteger => "int_parsing_size"
  | .fractional => "int_from_float"
  | .infinite => "finite_number"
  | .negative => "greater_than_equal"
  | .unreadableBoolean => "bool_parsing"
  | .notAWord _ => "literal_error"
  | .tooFew _ _ => "too_short"
  | .tooMany _ _ => "too_long"
  | .unknownTag _ _ => "union_tag_invalid"
  | .keyNotString => "invalid_key"
  | .broken _ => "value_error"

def message : Complaint → String
  | .missing => "Field required"
  | .extra => "Extra inputs are not permitted"
  | .notString => "Input should be a valid string"
  | .notInteger => "Input should be a valid integer"
  | .notList => "Input should be a valid list"
  | .notObject => "Input should be a valid dictionary"
  | .notBoolean => "Input should be a valid boolean"
  | .notPart name => "Input should be a valid dictionary or instance of " ++ name
  | .unreadableInteger => "Input should be a valid integer, unable to parse string as an integer"
  | .hugeInteger => "Unable to parse input string as an integer, exceeded maximum size"
  | .fractional => "Input should be a valid integer, got a number with a fractional part"
  | .infinite => "Input should be a finite number"
  | .negative => "Input should be greater than or equal to 0"
  | .unreadableBoolean => "Input should be a valid boolean, unable to interpret input"
  | .notAWord admitted => "Input should be " ++ alternatives (quoted admitted)
  | .tooFew least actual =>
    "List should have at least " ++ toString least ++ " items after validation, not " ++
      toString actual
  | .tooMany most actual =>
    "List should have at most " ++ toString most ++ " items after validation, not " ++
      toString actual
  | .unknownTag tag admitted =>
    "Input tag '" ++ tag ++ "' found using 'op' does not match any of the expected tags: " ++
      ", ".intercalate (quoted admitted)
  | .keyNotString => "Keys should be strings"
  | .broken rule => "Value error, " ++ rule

end Complaint

structure Issue where
  place : List Crumb
  complaint : Complaint
  deriving DecidableEq, Repr

end Conduit
