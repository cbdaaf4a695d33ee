import Conduit.Fields
import Conduit.Text.Blank

/-!
# Settings

Two switches that change how expressions are evaluated and logged. Each
can be set by an environment variable; one that is unset or blank keeps
its default.
-/

namespace Conduit

structure Settings where
  /-- Whether a validation that does not say so fails on a mismatch. -/
  strictValidation : Bool := true
  /-- Whether the log shows the values of steps. -/
  logValues : Bool := false
  deriving DecidableEq, Repr, Inhabited

namespace Settings

/-- The words that switch something on, in any case. -/
def onWords : List String := ["1", "true", "yes", "on"]

/-- The switch that the text of a variable sets. -/
def flag (byDefault : Bool) : Option String → Bool
  | none => byDefault
  | some text =>
    let word := Text.trim text
    if word.isEmpty then byDefault
    else onWords.contains (String.ofList (word.toList.map Char.toLower))

def ofVariables (values : Fields String) : Settings where
  strictValidation := flag true (values.get? "DECK_STRICT_VALIDATION")
  logValues := flag false (values.get? "DECK_LOG_VALUES")

end Settings

end Conduit
