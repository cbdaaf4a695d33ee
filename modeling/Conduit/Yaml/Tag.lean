import Conduit.Pattern.Reader
import Conduit.Pattern.Search

/-!
# Tags

A tag says of what type a node is. A plain scalar without a tag has the
type whose texts it belongs to, and is a string if there is none.

This stands for the resolver of PyYAML.
-/

namespace Conduit

namespace Yaml

inductive Tag where
  | null | bool | int | float | timestamp | str | seq | map
  | pairs
  /-- The key whose value is a mapping to be merged into this one. -/
  | merge
  /-- The key whose value stands for the mapping where a scalar is needed. -/
  | value
  | other (uri : String)
  deriving DecidableEq, Repr

namespace Tag

/-- How the tags of the language begin. -/
def standard : String := "tag:yaml.org,2002:"

def names : List (String × Tag) := [
  ("null", .null), ("bool", .bool), ("int", .int), ("float", .float), ("timestamp", .timestamp),
  ("str", .str), ("seq", .seq), ("map", .map), ("pairs", .pairs), ("omap", .pairs),
  ("merge", .merge), ("value", .value)]

def ofUri (uri : String) : Tag :=
  if uri.startsWith standard then
    (names.lookup (uri.drop standard.length).toString).getD (.other uri)
  else .other uri

/-! ## Plain scalars -/

def boolForm : Option Pattern := Pattern.parse?
  "^(?:yes|Yes|YES|no|No|NO|true|True|TRUE|false|False|FALSE|on|On|ON|off|Off|OFF)$"

def floatForm : Option Pattern := Pattern.parse? (
  "^(?:[-+]?(?:[0-9][0-9_]*)\\.[0-9_]*(?:[eE][-+][0-9]+)?" ++
  "|\\.[0-9][0-9_]*(?:[eE][-+][0-9]+)?" ++
  "|[-+]?[0-9][0-9_]*(?::[0-5]?[0-9])+\\.[0-9_]*" ++
  "|[-+]?\\.(?:inf|Inf|INF)|\\.(?:nan|NaN|NAN))$")

def intForm : Option Pattern := Pattern.parse? (
  "^(?:[-+]?0b[0-1_]+|[-+]?0[0-7_]+|[-+]?(?:0|[1-9][0-9_]*)|[-+]?0x[0-9a-fA-F_]+" ++
  "|[-+]?[1-9][0-9_]*(?::[0-5]?[0-9])+)$")

def mergeForm : Option Pattern := Pattern.parse? "^(?:<<)$"

def nullForm : Option Pattern := Pattern.parse? "^(?:~|null|Null|NULL|)$"

def timestampForm : Option Pattern := Pattern.parse? (
  "^(?:[0-9][0-9][0-9][0-9]-[0-9][0-9]-[0-9][0-9]" ++
  "|[0-9][0-9][0-9][0-9]-[0-9][0-9]?-[0-9][0-9]?(?:[Tt]|[ \\t]+)[0-9][0-9]?" ++
  ":[0-9][0-9]:[0-9][0-9](?:\\.[0-9]*)?(?:[ \\t]*(?:Z|[-+][0-9][0-9]?(?::[0-9][0-9])?))?)$")

def valueForm : Option Pattern := Pattern.parse? "^(?:=)$"

/-- Indicators on their own, which are of no type. -/
def indicatorForm : Option Pattern := Pattern.parse? "^(?:!|&|\\*)$"

/-- The types that plain scalars can have, each with the form of its texts. -/
def forms : List (Option Pattern × Tag) := [
  (boolForm, .bool), (floatForm, .float), (intForm, .int), (mergeForm, .merge),
  (nullForm, .null), (timestampForm, .timestamp), (valueForm, .value),
  (indicatorForm, .other (standard ++ "yaml"))]

def fits (form : Option Pattern) (text : String) : Bool := form.any fun p => p.search text

def ofPlain (text : String) : Tag :=
  ((forms.find? fun p => fits p.1 text).map Prod.snd).getD .str

end Tag

end Yaml

end Conduit
