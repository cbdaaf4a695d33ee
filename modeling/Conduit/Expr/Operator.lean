import Conduit.Comparison

/-!
# Operators

The operators of the expression language with their names. An operator
object in a document has its operator's name as its only key.
-/

namespace Conduit

/-- The arithmetic operators of two or more operands, combined from left
to right. -/
inductive Variadic where
  | add | multiply
  deriving DecidableEq, Repr

/-- The arithmetic operators of exactly two operands. -/
inductive Dyadic where
  | subtract | divide
  deriving DecidableEq, Repr

inductive Operator where
  | literal | get | jsonPath | branch | switch | map | filter | reduce
  | dbQuery | dbInsert | dbUpdate | dbDelete
  | merge | present | now | renderString | earlyReturn | validate
  | compare (op : Comparison)
  | and | or | not
  | variadic (op : Variadic)
  | dyadic (op : Dyadic)
  deriving DecidableEq, Repr

namespace Comparison

def operatorName : Comparison → String
  | .eq => "$eq"
  | .ne => "$ne"
  | .gt => "$gt"
  | .gte => "$gte"
  | .lt => "$lt"
  | .lte => "$lte"

end Comparison

namespace Variadic

def operatorName : Variadic → String
  | .add => "$add"
  | .multiply => "$multiply"

end Variadic

namespace Dyadic

def operatorName : Dyadic → String
  | .subtract => "$subtract"
  | .divide => "$divide"

end Dyadic

namespace Operator

def name : Operator → String
  | .literal => "$literal"
  | .get => "$get"
  | .jsonPath => "$jsonPath"
  | .branch => "$if"
  | .switch => "$switch"
  | .map => "$map"
  | .filter => "$filter"
  | .reduce => "$reduce"
  | .dbQuery => "$dbQuery"
  | .dbInsert => "$dbInsert"
  | .dbUpdate => "$dbUpdate"
  | .dbDelete => "$dbDelete"
  | .merge => "$merge"
  | .present => "$exists"
  | .now => "$now"
  | .renderString => "$renderString"
  | .earlyReturn => "$return"
  | .validate => "$validate"
  | .compare op => op.operatorName
  | .and => "$and"
  | .or => "$or"
  | .not => "$not"
  | .variadic op => op.operatorName
  | .dyadic op => op.operatorName

/-- All operators, in the order in which messages list them. -/
def all : List Operator :=
  [.literal, .get, .jsonPath, .branch, .switch, .map, .filter, .reduce,
    .dbQuery, .dbInsert, .dbUpdate, .dbDelete,
    .merge, .present, .now, .renderString, .earlyReturn, .validate,
    .compare .eq, .compare .ne, .compare .gt, .compare .gte, .compare .lt, .compare .lte,
    .and, .or, .not, .variadic .add, .variadic .multiply, .dyadic .subtract, .dyadic .divide]

def ofName? (s : String) : Option Operator := all.find? fun op => op.name == s

end Operator

end Conduit
