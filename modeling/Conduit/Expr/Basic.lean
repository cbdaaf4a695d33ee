import Conduit.Expr.Operator
import Conduit.Query.Filter
import Conduit.Query.Segment
import Conduit.Template

/-!
# Expressions

An expression is a tree of operators over literals. It holds what its
paths, queries and templates were read into, next to their texts, so an
expression that exists has nothing left in it that could fail to parse.
-/

namespace Conduit

/-- What an operator takes as a map of fields: one expression, or an
object whose fields are expressions. -/
inductive Payload (E : Type) where
  | expr (e : E)
  | fields (fs : List (String × E))
  deriving Inhabited

/-- One case of a switch. The value it waits for is a literal. -/
structure Case (E : Type) where
  subject : Value
  result : E
  deriving Inhabited

inductive SortOrder where
  | asc | desc
  deriving DecidableEq, Repr, Inhabited

/-- How the documents that a query matches are chosen and presented. -/
structure QueryOptions where
  select : Option (List String) := none
  limit : Option Int := none
  skip : Option Int := none
  sort : Option (List (String × SortOrder)) := none
  deriving DecidableEq, Repr, Inhabited

/-- A schema given in place, or by its name in the registry. -/
inductive SchemaRef where
  | inline (schema : Fields Value)
  | named (name : String)
  deriving Inhabited

inductive Expr where
  /-- A constant; nothing inside it is evaluated. -/
  | literal (v : Value)
  | get (path : DotPath)
  | jsonPath (text : String) (segments : List (Segment Query.Filter))
  | branch (condition yes : Expr) (no : Option Expr)
  | switch (subject : Expr) (cases : List (Case Expr)) (fallback : Option Expr)
  | map (items : Expr) (element : String) (body : Expr)
  | filter (items : Expr) (element : String) (predicate : Expr)
  | reduce (items : Expr) (element accumulator : String) (initial body : Expr)
  | dbQuery (collection : String) (criteria : Option (Payload Expr)) (options : QueryOptions)
  | dbInsert (collection : String) (document : Payload Expr)
  | dbUpdate (collection : String) (criteria update : Payload Expr)
  | dbDelete (collection : String) (criteria : Payload Expr)
  | merge (objects : List (Payload Expr))
  | present (value : Expr)
  | now
  | renderString (template : Template) (vars : Option (Payload Expr))
  | earlyReturn (value : Payload Expr)
  | validate (value : Expr) (schema : SchemaRef) (strict : Option Bool) (onFail : Option Expr)
  | compare (op : Comparison) (left right : Expr)
  | and (operands : List Expr)
  | or (operands : List Expr)
  | not (operand : Expr)
  | variadic (op : Variadic) (first second : Expr) (rest : List Expr)
  | dyadic (op : Dyadic) (left right : Expr)
  deriving Inhabited

namespace Expr

def operator : Expr → Operator
  | .literal _ => .literal
  | .get _ => .get
  | .jsonPath _ _ => .jsonPath
  | .branch _ _ _ => .branch
  | .switch _ _ _ => .switch
  | .map _ _ _ => .map
  | .filter _ _ _ => .filter
  | .reduce _ _ _ _ _ => .reduce
  | .dbQuery _ _ _ => .dbQuery
  | .dbInsert _ _ => .dbInsert
  | .dbUpdate _ _ _ => .dbUpdate
  | .dbDelete _ _ => .dbDelete
  | .merge _ => .merge
  | .present _ => .present
  | .now => .now
  | .renderString _ _ => .renderString
  | .earlyReturn _ => .earlyReturn
  | .validate _ _ _ _ => .validate
  | .compare op _ _ => .compare op
  | .and _ => .and
  | .or _ => .or
  | .not _ => .not
  | .variadic op _ _ _ => .variadic op
  | .dyadic op _ _ => .dyadic op

/-! ## Filters as expressions -/

mutual

/-- The expression that decides a filter. A path on its own asks for a
value other than null. -/
def ofFilter : Query.Filter → Expr
  | .literal v => .literal v
  | .path p => .get p
  | .present p => .present (.get p)
  | .compare op left right => .compare op (ofFilter left) (ofFilter right)
  | .not operand => .not (ofFilter operand)
  | .and operands => .and (ofFilters operands)
  | .or operands => .or (ofFilters operands)

def ofFilters : List Query.Filter → List Expr
  | [] => []
  | f :: rest => ofFilter f :: ofFilters rest

end

end Expr

end Conduit
