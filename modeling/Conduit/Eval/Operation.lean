import Conduit.Clock.Moment
import Conduit.Expr.Operator
import Conduit.Query.Select
import Conduit.Scope
import Conduit.Template

/-!
# Operations

What an evaluation does with values once it has them: it reads a path or
takes a step of a query, it renders a template, it takes the rows from an
answer, it orders values and combines numbers. An operation holds all that its result depends on and
nothing else, so what it comes to can be told without running anything.
-/

namespace Conduit

inductive Operation where
  /-- The value of a path in a scope. -/
  | read (path : DotPath) (s : Scope)
  | step (s : Step) (v : Value)
  /-- A template over fields of its own, with the engine for its tags. -/
  | render (engine : Engine) (template : Template) (fields : Fields Value)
  /-- A template over all that is visible. -/
  | renderIn (engine : Engine) (template : Template) (s : Scope)
  /-- The rows in what a database answers to a query. -/
  | rows (answer : Value)
  /-- What a clock showed, or how it failed. -/
  | timestamp (reading : Except Failure Moment)
  | compare (op : Comparison) (left right : Value)
  /-- Numbers combined from left to right. -/
  | combine (op : Variadic) (first : Number) (rest : List Number)
  | combineTwo (op : Dyadic) (left right : Number)

namespace Operation

def combineAll (op : Variadic) (first : Number) (rest : List Number) : Except Limit Number :=
  rest.foldlM (match op with
    | .add => Number.add
    | .multiply => Number.mul) first

def combineOf (op : Dyadic) (left right : Number) : Except Failure Number :=
  match op with
  | .subtract => (left.sub right).mapError .limit
  | .divide =>
    if right.isZero then .error .divisionByZero else (left.div right).mapError .limit

/-- A value as what it is a sequence of: an array of its items, an object of its
keys, a text of its characters. -/
def rowsOf : Value → Except Failure Value
  | .arr xs => .ok (.arr xs)
  | .obj fs => .ok (.arr (fs.map fun p => .str p.1))
  | .mapping es => .ok (.arr (es.map Prod.fst))
  | .str s => .ok (.arr (s.toList.map fun c => .str (String.ofList [c])))
  | .date _ => notIterable "datetime.date"
  | v => notIterable v.typeName
where
  notIterable (type : String) : Except Failure Value :=
    .error (.raised ⟨"TypeError", "'" ++ type ++ "' object is not iterable"⟩)

/-- What an operation comes to. -/
def result : Operation → Except Failure Value
  | .read path s => s.resolve path
  | .step s v => ((Query.selectStep s v).mapError .limit).map .arr
  | .render engine template fields => (template.render engine fields).map .str
  | .renderIn engine template s => (template.render engine s.toFields).map .str
  | .rows answer => rowsOf answer
  | .timestamp reading => do
    let moment ← reading
    (moment.now.mapError .limit).map .str
  | .compare op left right => ((op.holds left right).mapError .ofUnordered).map .bool
  | .combine op first rest => ((combineAll op first rest).mapError .limit).map .number
  | .combineTwo op left right => (combineOf op left right).map .number

end Operation

/-- What is noted of an evaluation while it goes on. -/
inductive Note where
  | operation (o : Operation)
  /-- A schema is looked up by its name. -/
  | schema (name : String)
  /-- The value of a stage is about to be bound in a scope. -/
  | binding (name : String) (s : Scope)
  /-- Something is noted while a filter of a query is decided. -/
  | filtered (n : Note)

end Conduit
