import Conduit.Config.FileName
import Conduit.Config.Reader
import Conduit.Json
import Conduit.Text.Blank
import Conduit.Yaml.Value

/-!
# Configuration documents

A configuration is kept in a file, as JSON or as YAML by the suffix of the
file's name. Whatever is wrong with it is told by the first thing that
goes wrong: there is no such file, its text cannot be read, what it holds
is no mapping, or the mapping is no configuration.
-/

namespace Conduit

namespace Config

inductive Format where
  | json | yaml
  deriving DecidableEq, Repr

/-- The language of a file. What has not the suffix of JSON is YAML. -/
def Format.ofFile (name : String) : Format :=
  if (FileName.suffix name).toList.map Char.toLower = ".json".toList then .json else .yaml

inductive LoadError where
  | notFound (file : String)
  | badJson (file fault : String)
  | badYaml (file : String)
  /-- A scalar of a YAML document is not what it says that it is. -/
  | badScalar (e : Yaml.Error)
  | notMapping (typeName : String)
  | invalid (issues : List Issue)
  | limit (l : Limit)

namespace LoadError

def message : LoadError → String
  | .notFound file => "Config file not found: " ++ file
  | .badJson file fault => "Invalid JSON in " ++ file ++ ": " ++ fault
  | .badYaml file => "Invalid YAML in " ++ file
  | .badScalar e => e.message
  | .notMapping typeName => "Config document must be a mapping, got " ++ typeName
  | .invalid _ => "Config structure invalid"
  | .limit l => l.message

end LoadError

/-- The value that the text of a file writes. -/
def readText (file text : String) : Except LoadError Value :=
  let cs := Text.joinLines text.toList
  match Format.ofFile file with
  | .json =>
    match Json.read (some Limit.numeralDigits) cs with
    | .ok v => .ok v
    | .error (.limit l) => .error (.limit l)
    | .error e => .error (.badJson (FileName.shown file) (e.message cs))
  | .yaml =>
    match Yaml.read cs with
    | .ok v => .ok v
    | .error .malformed => .error (.badYaml (FileName.shown file))
    | .error (.limit l) => .error (.limit l)
    | .error e => .error (.badScalar e)

def load (file : String) (text : Option String) : Except LoadError Config := do
  match text with
  | none => .error (.notFound (FileName.shown file))
  | some text =>
    let v ← readText file text
    if v.kind ≠ .object then .error (.notMapping v.typeName)
    else match read v with
      | .done c => .ok c
      | .refused issues => .error (.invalid issues)

end Config

end Conduit
