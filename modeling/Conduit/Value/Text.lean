import Conduit.Number.Text
import Conduit.Text.Quoted
import Conduit.Value.Basic

/-!
# Written values

A value is written in two notations: JSON, for rendered templates and
log lines, and the display notation of messages (single quotes, `None`,
`True`). Both fail on an integer with more digits than a numeral may
have.
-/

namespace Conduit

namespace Number

/-- The digits of a number, in the layout given. -/
def text (layout : Layout) : Number → Except Limit String
  | .int n =>
    if Nat.pow 10 Limit.numeralDigits ≤ n.natAbs then .error .longInteger else .ok (toString n)
  | .double x => .ok (x.text layout)

end Number

namespace Value

/-- A date in the display notation: its three numbers without leading
zeros. -/
def displayDate (iso : String) : String :=
  "datetime.date(" ++ ", ".intercalate ((iso.splitOn "-").map fun part =>
    let digits := part.toList.dropWhile (· = '0')
    if digits.isEmpty then "0" else String.ofList digits) ++ ")"

/-! ## JSON -/

mutual

def json : Value → Except Limit String
  | .null => .ok "null"
  | .bool b => .ok (if b then "true" else "false")
  | .number n => n.text .json
  | .str s => .ok (Text.quoteJson s)
  | .date iso => .ok (Text.quoteJson iso)
  | .arr xs => do .ok ("[" ++ ", ".intercalate (← jsonItems xs) ++ "]")
  | .obj fs => do .ok ("\x7b" ++ ", ".intercalate (← jsonFields fs) ++ "\x7d")
  | .mapping es => do .ok ("\x7b" ++ ", ".intercalate (← jsonEntries es) ++ "\x7d")

def jsonItems : List Value → Except Limit (List String)
  | [] => .ok []
  | x :: xs => do
    let first ← json x
    let rest ← jsonItems xs
    .ok (first :: rest)

def jsonFields : List (String × Value) → Except Limit (List String)
  | [] => .ok []
  | (k, v) :: more => do
    let first ← json v
    let rest ← jsonFields more
    .ok ((Text.quoteJson k ++ ": " ++ first) :: rest)

/-- A key that is no string is quoted in its own JSON text. -/
def jsonEntries : List (Value × Value) → Except Limit (List String)
  | [] => .ok []
  | (k, v) :: more => do
    let key ← json k
    let first ← json v
    let rest ← jsonEntries more
    let name := match k with
      | .str _ => key
      | _ => "\"" ++ key ++ "\""
    .ok ((name ++ ": " ++ first) :: rest)

end

/-! ## Display -/

mutual

def display : Value → Except Limit String
  | .null => .ok "None"
  | .bool b => .ok (if b then "True" else "False")
  | .number n => n.text .plain
  | .str s => .ok (Text.quote s)
  | .date iso => .ok (displayDate iso)
  | .arr xs => do .ok ("[" ++ ", ".intercalate (← displayItems xs) ++ "]")
  | .obj fs => do .ok ("\x7b" ++ ", ".intercalate (← displayFields fs) ++ "\x7d")
  | .mapping es => do .ok ("\x7b" ++ ", ".intercalate (← displayEntries es) ++ "\x7d")

def displayItems : List Value → Except Limit (List String)
  | [] => .ok []
  | x :: xs => do
    let first ← display x
    let rest ← displayItems xs
    .ok (first :: rest)

def displayFields : List (String × Value) → Except Limit (List String)
  | [] => .ok []
  | (k, v) :: more => do
    let first ← display v
    let rest ← displayFields more
    .ok ((Text.quote k ++ ": " ++ first) :: rest)

def displayEntries : List (Value × Value) → Except Limit (List String)
  | [] => .ok []
  | (k, v) :: more => do
    let key ← display k
    let first ← display v
    let rest ← displayEntries more
    .ok ((key ++ ": " ++ first) :: rest)

end

end Value

/-- A list of names in the display notation. -/
def displayNames (names : List String) : String :=
  "[" ++ ", ".intercalate (names.map Text.quote) ++ "]"

end Conduit
