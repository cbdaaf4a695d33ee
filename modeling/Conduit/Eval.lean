import Conduit.Eval.Action
import Conduit.Schema.Violations

/-!
# Evaluation

The value of an expression in a scope. Operands are evaluated from left to
right, and a failure stops all that would come after it. A branch that
is not taken is not evaluated, nor an operand after the deciding one.
Expressions and values may be nested to any depth.
-/

namespace Conduit

namespace Expr

variable {σ : Type}

/-! ## Parts -/

def requireItems (op : Operator) : Value → Action σ (List Value)
  | .arr xs => pure xs
  | v => .fail (.mismatch (.items op.name v.kind))

def requireNumber (op : Operator) (position : Nat) : Value → Action σ Number
  | .number n => pure n
  | v => .fail (.mismatch (.operand op.name position v.kind))

def requireObject (part : String) : Value → Action σ (Fields Value)
  | .obj fs => pure fs
  | v => .fail (.mismatch (.object part v.kind))

def requireDatabase (host : Host σ) (op : Operator) : Action σ (Database σ) :=
  match host.database with
  | some db => pure db
  | none => .fail (.storage (.noDatabase op.name))

def requireSchema (host : Host σ) : SchemaRef → Action σ (Fields Value)
  | .inline schema => pure schema
  | .named name => do
    .note (.schema name)
    match host.schemas.get? name with
    | some schema => pure schema
    | none => .fail (.unknownSchema name)

/-- Numbers, each found to be one before the next operand is evaluated. -/
def requireNumbers (op : Operator) (position : Nat) :
    List (Action σ Value) → Action σ (List Number)
  | [] => pure []
  | operand :: rest => do
    let n ← requireNumber op position (← operand)
    let ns ← requireNumbers op (position + 1) rest
    pure (n :: ns)

def isPresent (value : Action σ Value) : Action σ Value :=
  .recover [.pathNotFound] (.bool false) do
    let v ← value
    pure (.bool !v.isNull)

/-! ## The value of a filter -/

mutual

def evalFilter : Query.Filter → Scope → Action σ Value
  | .literal v, _ => pure v
  | .path p, s => .perform (.read p s)
  | .present p, s => isPresent (.perform (.read p s))
  | .compare op left right, s => do
    let v ← evalFilter left s
    let w ← evalFilter right s
    .perform (.compare op v w)
  | .not operand, s => do
    let v ← evalFilter operand s
    pure (.bool !v.truthy)
  | .and operands, s => Action.conjoin (.bool true) (evalFilters operands s)
  | .or operands, s => Action.disjoin (.bool false) (evalFilters operands s)

def evalFilters : List Query.Filter → Scope → List (Action σ Value)
  | [], _ => []
  | f :: rest, s => evalFilter f s :: evalFilters rest s

end

/-- Failures that only mean that a filter does not match. -/
def misses : List FailureKind := [.pathNotFound, .typeMismatch]

/-- The judge of a query's filters: each candidate is bound to `@`. -/
def judge (s : Scope) : Query.Judge (fun α => Action σ α) Query.Filter where
  accepts f candidate :=
    .recover misses false <| .inFilter do
      let v ← evalFilter f (s.child [("@", candidate)])
      pure v.truthy
  overrun l := .fail (.limit l)
  visit step v := .note (.operation (.step step v))

/-! ## The value of an expression -/

mutual

def eval (host : Host σ) : Expr → Scope → Action σ Value
  | .literal v, _ => pure v
  | .get path, s => .perform (.read path s)
  | .jsonPath _ segments, s => do
    let found ← Query.run (judge s) segments (.obj s.toFields)
    pure (.arr found)
  | .branch condition yes no, s => do
    let c ← eval host condition s
    if c.truthy then eval host yes s else evalOption host no s
  | .switch subject cases fallback, s => do
    let v ← eval host subject s
    evalCases host v (evalOption host fallback s) cases s
  | .map items element body, s => do
    let xs ← requireItems .map (← eval host items s)
    let values ← Action.mapEach (fun x => eval host body (s.child [(element, x)])) xs
    pure (.arr values)
  | .filter items element predicate, s => do
    let xs ← requireItems .filter (← eval host items s)
    let kept ← Action.keepEach (fun x => eval host predicate (s.child [(element, x)])) xs
    pure (.arr kept)
  | .reduce items element accumulator initial body, s => do
    let xs ← requireItems .reduce (← eval host items s)
    let start ← eval host initial s
    Action.foldEach
      (fun acc x => eval host body (s.child [(element, x), (accumulator, acc)])) start xs
  | .dbQuery collection criteria options, s => do
    let db ← requireDatabase host .dbQuery
    let filter ← evalCriteria host criteria s
    let answer ← Action.ask db (.query collection filter options)
    .perform (.rows answer)
  | .dbInsert collection document, s => do
    let db ← requireDatabase host .dbInsert
    let document ← requireObject "$dbInsert document" (← evalPayload host document s)
    Action.ask db (.insert collection document)
  | .dbUpdate collection criteria update, s => do
    let db ← requireDatabase host .dbUpdate
    let filter ← requireObject "$dbUpdate filter" (← evalPayload host criteria s)
    let patch ← requireObject "$dbUpdate update" (← evalPayload host update s)
    Action.ask db (.update collection filter patch)
  | .dbDelete collection criteria, s => do
    let db ← requireDatabase host .dbDelete
    let filter ← requireObject "$dbDelete filter" (← evalPayload host criteria s)
    Action.ask db (.delete collection filter)
  | .merge objects, s => do
    let merged ← evalMerge host 0 [] objects s
    pure (.obj merged)
  | .present value, s => isPresent (eval host value s)
  | .now, _ => do
    let reading ← Action.readClock host
    .perform (.timestamp reading)
  | .renderString template vars, s =>
    match vars with
    | none => do
      let engine ← Action.takeEngine host
      .perform (.renderIn engine template s)
    | some p => do
      let fields ← requireObject "$renderString vars" (← evalPayload host p s)
      let engine ← Action.takeEngine host
      .perform (.render engine template fields)
  | .earlyReturn value, s => do
    let v ← evalPayload host value s
    throw (.returned v)
  | .validate value schema strict onFail, s => do
    let v ← eval host value s
    let schema ← requireSchema host schema
    let details ← .ofExcept (Schema.violations schema v)
    if details.isEmpty then pure (.bool true) else evalReaction host strict details onFail s
  | .compare op left right, s => do
    let v ← eval host left s
    let w ← eval host right s
    .perform (.compare op v w)
  | .and operands, s => Action.conjoin (.bool true) (evalAll host operands s)
  | .or operands, s => Action.disjoin (.bool false) (evalAll host operands s)
  | .not operand, s => do
    let v ← eval host operand s
    pure (.bool !v.truthy)
  | .variadic op first second rest, s => do
    let x ← requireNumber (.variadic op) 0 (← eval host first s)
    let y ← requireNumber (.variadic op) 1 (← eval host second s)
    let zs ← requireNumbers (.variadic op) 2 (evalAll host rest s)
    .perform (.combine op x (y :: zs))
  | .dyadic op left right, s => do
    let x ← requireNumber (.dyadic op) 0 (← eval host left s)
    let y ← requireNumber (.dyadic op) 1 (← eval host right s)
    .perform (.combineTwo op x y)

def evalOption (host : Host σ) : Option Expr → Scope → Action σ Value
  | none, _ => pure .null
  | some e, s => eval host e s

/-- What comes of a value that does not match its schema. -/
def evalReaction (host : Host σ) (strict : Option Bool) (details : List String) :
    Option Expr → Scope → Action σ Value
  | some e, s => eval host e (s.child [("errors", .arr (details.map .str))])
  | none, _ =>
    if strict.getD host.settings.strictValidation then .fail (.schemaViolation details)
    else pure (.bool false)

/-- The result of the first case that waits for `v`. -/
def evalCases (host : Host σ) (v : Value) (fallback : Action σ Value) :
    List (Case Expr) → Scope → Action σ Value
  | [], _ => fallback
  | ⟨subject, result⟩ :: rest, s =>
    if v.equal subject then eval host result s else evalCases host v fallback rest s

/-- The evaluations of several expressions, none of them begun. -/
def evalAll (host : Host σ) : List Expr → Scope → List (Action σ Value)
  | [], _ => []
  | e :: rest, s => eval host e s :: evalAll host rest s

def evalFields (host : Host σ) : List (String × Expr) → Scope → Action σ (Fields Value)
  | [], _ => pure []
  | (name, e) :: rest, s => do
    let v ← eval host e s
    let vs ← evalFields host rest s
    pure ((name, v) :: vs)

def evalPayload (host : Host σ) : Payload Expr → Scope → Action σ Value
  | .expr e, s => eval host e s
  | .fields fs, s => do
    let values ← evalFields host fs s
    pure (.obj values)

/-- The objects of payloads written over `merged`, one after another. -/
def evalMerge (host : Host σ) (position : Nat) (merged : Fields Value) :
    List (Payload Expr) → Scope → Action σ (Fields Value)
  | [], _ => pure merged
  | p :: rest, s => do
    let fields ← requireObject ("$merge operand " ++ toString position) (← evalPayload host p s)
    evalMerge host (position + 1) (merged.overlay fields) rest s

/-- The criteria of a query; none match every document. -/
def evalCriteria (host : Host σ) : Option (Payload Expr) → Scope → Action σ (Fields Value)
  | none, _ => pure []
  | some p, s => do requireObject "$dbQuery filter" (← evalPayload host p s)

end

end Expr

end Conduit
