import Conduit.Clock.Iso

/-!
# What is wrong with a YAML text

Most texts that cannot be read are just no document. A few have a
scalar that looks like a number, a date or a boolean, or says that it is
one, and is none; these are told apart.

These are the ways in which PyYAML fails, as far as they are told apart.
-/

namespace Conduit

namespace Yaml

inductive Error where
  /-- The text is no document, or not only one, or it has data of a type that
  values do not have. -/
  | malformed
  | integer (base : Nat) (text : String)
  | float (text : String)
  | boolean (text : String)
  /-- A number without a single character. -/
  | emptyNumber
  | timestamp (e : Moment.Error)
  /-- An escape that gives a number beyond the last character. -/
  | character (code : Nat)
  | limit (l : Limit)

namespace Error

/-- What is wrong with a scalar; a text that is no document has no more to
say. -/
def message : Error → String
  | .malformed => ""
  | .integer base text =>
    "invalid literal for int() with base " ++ toString base ++ ": " ++ Text.quote text
  | .float text => "could not convert string to float: " ++ Text.quote text
  | .boolean text => Text.quote text
  | .emptyNumber => "string index out of range"
  | .timestamp e => e.message
  | .character _ => "chr() arg not in range(0x110000)"
  | .limit l => l.message

end Error

end Yaml

end Conduit
