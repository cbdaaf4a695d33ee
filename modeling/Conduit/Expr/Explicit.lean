import Conduit.Expr.Basic

/-!
# The explicit form of an expression

Every expression has one form in which nothing is abbreviated: an object
that holds the operator's name under `op` and then each of its fields
under one spelling, with defaults filled in.
-/

namespace Conduit

namespace SortOrder

def name : SortOrder → String
  | .asc => "asc"
  | .desc => "desc"

end SortOrder

namespace Expr

/-- A value if there is one, else null. -/
def orNull {α : Type} (f : α → Value) : Option α → Value
  | none => .null
  | some a => f a

def names (xs : List String) : Value := .arr (xs.map .str)

def sortForm (sort : List (String × SortOrder)) : Value :=
  .obj (sort.map fun p => (p.1, .str p.2.name))

def schemaForm : SchemaRef → Value
  | .inline schema => .obj schema
  | .named name => .str name

/-- The object of an operator with its fields. -/
def form (op : Operator) (fields : Fields Value) : Value :=
  .obj (("op", .str op.name) :: fields)

mutual

def explicit : Expr → Value
  | .literal v => form .literal [("value", v)]
  | .get path => form .get [("path", .str path.text)]
  | .jsonPath text _ => form .jsonPath [("path", .str text)]
  | .branch condition yes no =>
    form .branch [("cond", explicit condition), ("then", explicit yes),
      ("else_", explicitOption no)]
  | .switch subject cases fallback =>
    form .switch [("on", explicit subject), ("cases", .arr (explicitCases cases)),
      ("default", explicitOption fallback)]
  | .map items element body =>
    form .map [("items", explicit items), ("as_", .str element), ("body", explicit body)]
  | .filter items element predicate =>
    form .filter [("items", explicit items), ("as_", .str element),
      ("predicate", explicit predicate)]
  | .reduce items element accumulator initial body =>
    form .reduce [("items", explicit items), ("as_", .str element), ("acc", .str accumulator),
      ("initial", explicit initial), ("body", explicit body)]
  | .dbQuery collection criteria options =>
    form .dbQuery [("collection", .str collection), ("filter", explicitPayloadOption criteria),
      ("select", orNull names options.select), ("limit", orNull .int options.limit),
      ("skip", orNull .int options.skip), ("sort", orNull sortForm options.sort)]
  | .dbInsert collection document =>
    form .dbInsert [("collection", .str collection), ("document", explicitPayload document)]
  | .dbUpdate collection criteria update =>
    form .dbUpdate [("collection", .str collection), ("filter", explicitPayload criteria),
      ("update", explicitPayload update)]
  | .dbDelete collection criteria =>
    form .dbDelete [("collection", .str collection), ("filter", explicitPayload criteria)]
  | .merge objects => form .merge [("objects", .arr (explicitPayloads objects))]
  | .present value => form .present [("value", explicit value)]
  | .now => form .now []
  | .renderString template vars =>
    form .renderString [("template", .str template.text), ("vars", explicitPayloadOption vars)]
  | .earlyReturn value => form .earlyReturn [("value", explicitPayload value)]
  | .validate value schema strict onFail =>
    form .validate [("value", explicit value), ("schema_", schemaForm schema),
      ("strict", orNull .bool strict), ("on_fail", explicitOption onFail)]
  | .compare op left right =>
    form (.compare op) [("left", explicit left), ("right", explicit right)]
  | .and operands => form .and [("operands", .arr (explicitAll operands))]
  | .or operands => form .or [("operands", .arr (explicitAll operands))]
  | .not operand => form .not [("operand", explicit operand)]
  | .variadic op first second rest =>
    form (.variadic op) [("operands", .arr (explicit first :: explicit second :: explicitAll rest))]
  | .dyadic op left right => form (.dyadic op) [("operands", .arr [explicit left, explicit right])]

def explicitOption : Option Expr → Value
  | none => .null
  | some e => explicit e

def explicitAll : List Expr → List Value
  | [] => []
  | e :: rest => explicit e :: explicitAll rest

def explicitCases : List (Case Expr) → List Value
  | [] => []
  | ⟨subject, result⟩ :: rest =>
    .obj [("when", subject), ("then", explicit result)] :: explicitCases rest

def explicitNamed : List (String × Expr) → List (String × Value)
  | [] => []
  | (name, e) :: rest => (name, explicit e) :: explicitNamed rest

def explicitPayload : Payload Expr → Value
  | .expr e => explicit e
  | .fields fs => .obj (explicitNamed fs)

def explicitPayloadOption : Option (Payload Expr) → Value
  | none => .null
  | some p => explicitPayload p

def explicitPayloads : List (Payload Expr) → List Value
  | [] => []
  | p :: rest => explicitPayload p :: explicitPayloads rest

end

end Expr

end Conduit
