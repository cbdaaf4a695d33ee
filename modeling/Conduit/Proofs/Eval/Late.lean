import Conduit.Eval
import Conduit.Proofs.Expr.Term
import Conduit.Query.Resolve

/-!
# Late evaluation

The evaluation of a term that takes nothing for granted: it reads each path,
query and template from its text whenever it gets to it, looks for operands
in a list, and follows a path as segments of any kind. Wherever that cannot
go on, not because of the values but because the term is none that should be
evaluated, it ends in a defect.

A defect is no failure: nothing recovers from it, and it is no result of an
`Action`.
-/

namespace Conduit

/-- Why a term cannot be evaluated. -/
inductive Defect where
  /-- A path cannot be read, or has a segment that is no step. -/
  | path (e : PathError)
  | query (e : Query.Error)
  | template (e : Template.Error)
  /-- A path does not start with a name. -/
  | noFirstName
  | notAnOperator (v : Value)
  | notAComparison (op : Operator)
  | notArithmetic (op : Operator)
  /-- There is no operand at this position. -/
  | noOperand (position : Nat)

/-- An action that may end in a defect. -/
abbrev Late (σ α : Type) := ExceptT Defect (Action σ) α

namespace Late

variable {σ α : Type}

def lift (act : Action σ α) : Late σ α := ExceptT.lift act

def defect (d : Defect) : Late σ α := throw d

def recover (kinds : List FailureKind) (value : α) (act : Late σ α) : Late σ α :=
  ExceptT.mk (Action.recover kinds (.ok value) act.run)

def inFilter (act : Late σ α) : Late σ α := ExceptT.mk (Action.inFilter act.run)

/-! ## Texts -/

def parsePath (text : String) : Late σ DotPath :=
  match DotPath.parse text with
  | .ok path => pure path
  | .error e => defect (.path e)

def parseQuery (text : String) : Late σ (List (Segment Query.Filter)) :=
  match Query.parse text with
  | .ok segments => pure segments
  | .error e => defect (.query e)

def parseTemplate (text : String) : Late σ Template :=
  match Template.parse text with
  | .ok template => pure template
  | .error e => defect (.template e)

/-- The segments of a path, as a query would take them. -/
def segmentsOf (path : DotPath) : List (Segment Query.Filter) := path.steps.map .step

/-- The value at the end of segments of any kind. -/
def follow (text : String) (segments : List (Segment Query.Filter)) (v : Value) : Late σ Value :=
  match Segment.resolve text segments v with
  | .ok w => pure w
  | .error (.failure f) => lift (.fail f)
  | .error (.path e) => defect (.path e)

/-- The value at the end of segments whose first is a name in a scope. -/
def fromScope (text : String) (s : Scope) : List (Segment Query.Filter) → Late σ Value
  | .step (.field name) :: rest =>
    (s.get? name).elim (lift (.fail (.pathNotFound text))) (follow text rest)
  | _ => defect .noFirstName

/-- The value that a path's text names in a scope. -/
def read (text : String) (s : Scope) : Late σ Value := do
  let path ← parsePath text
  lift (.note (.operation (.read path s)))
  fromScope text s (segmentsOf path)

/-- The value of a placeholder, which failures show in its canonical form. -/
def placeholder (fields : Fields Value) (path : DotPath) : Late σ Value :=
  match Segment.pathText (segmentsOf path) with
  | .ok text => follow text (segmentsOf path) (.obj fields)
  | .error (.limit l) => lift (.fail (.limit l))
  | .error e => defect (.path e)

/-- The text that a template's text makes of fields. -/
def render (engine : Engine) (operation : Template → Operation) (text : String)
    (fields : Fields Value) : Late σ Value := do
  let template ← parseTemplate text
  lift (.note (.operation (operation template)))
  let values ← template.paths.mapM (placeholder fields)
  let text ← lift (.ofExcept (template.output engine fields values))
  pure (.str text)

/-! ## Filters -/

mutual

def evalFilter : Query.Filter → Scope → Late σ Value
  | .literal v, _ => pure v
  | .path p, s => read p.text s
  | .present p, s => recover [.pathNotFound] (.bool false) do
    let v ← read p.text s
    pure (.bool !v.isNull)
  | .compare op left right, s => do
    let v ← evalFilter left s
    let w ← evalFilter right s
    lift (.perform (.compare op v w))
  | .not operand, s => do
    let v ← evalFilter operand s
    pure (.bool !v.truthy)
  | .and operands, s => Action.conjoin (.bool true) (evalFilters operands s)
  | .or operands, s => Action.disjoin (.bool false) (evalFilters operands s)

def evalFilters : List Query.Filter → Scope → List (Late σ Value)
  | [], _ => []
  | f :: rest, s => evalFilter f s :: evalFilters rest s

end

def judge (s : Scope) : Query.Judge (fun α => Late σ α) Query.Filter where
  accepts f candidate :=
    recover Expr.misses false <| inFilter do
      let v ← evalFilter f (s.child [("@", candidate)])
      pure v.truthy
  overrun l := lift (.fail (.limit l))
  visit step v := lift (.note (.operation (.step step v)))

/-! ## Operands -/

/-- The comparison of two values. -/
def compare (op : Operator) (v w : Value) : Late σ Value :=
  match op with
  | .compare c => lift (.perform (.compare c v w))
  | op => defect (.notAComparison op)

/-- The numbers of a list under an operator of arithmetic. -/
def combine (op : Operator) (values : List Number) : Late σ Value :=
  match op, values with
  | .variadic o, x :: rest => lift (.perform (.combine o x rest))
  | .variadic _, [] => defect (.noOperand 0)
  | .dyadic o, x :: y :: _ => lift (.perform (.combineTwo o x y))
  | .dyadic _, values => defect (.noOperand values.length)
  | op, _ => defect (.notArithmetic op)

end Late

/-! ## Terms -/

namespace Term

open Late

variable {σ : Type}

mutual

/-- The value of a term in a scope. -/
def eval (host : Host σ) : Term → Scope → Late σ Value
  | .literal v, _ => pure v
  | .get text, s => Late.read text s
  | .jsonPath text, s => do
    let segments ← parseQuery text
    let found ← Query.run (Late.judge s) segments (.obj s.toFields)
    pure (.arr found)
  | .branch condition yes no, s => do
    let c ← eval host condition s
    if c.truthy then eval host yes s else evalOption host no s
  | .switch subject cases fallback, s => do
    let v ← eval host subject s
    evalCases host v (evalOption host fallback s) cases s
  | .map items element body, s => do
    let xs ← lift (Expr.requireItems .map (← eval host items s))
    let values ← Action.mapEach (fun x => eval host body (s.child [(element, x)])) xs
    pure (.arr values)
  | .filter items element predicate, s => do
    let xs ← lift (Expr.requireItems .filter (← eval host items s))
    let kept ← Action.keepEach (fun x => eval host predicate (s.child [(element, x)])) xs
    pure (.arr kept)
  | .reduce items element accumulator initial body, s => do
    let xs ← lift (Expr.requireItems .reduce (← eval host items s))
    let start ← eval host initial s
    Action.foldEach
      (fun acc x => eval host body (s.child [(element, x), (accumulator, acc)])) start xs
  | .dbQuery collection criteria options, s => do
    let db ← lift (Expr.requireDatabase host .dbQuery)
    let filter ← evalCriteria host criteria s
    let answer ← lift (Action.ask db (.query collection filter options))
    lift (.perform (.rows answer))
  | .dbInsert collection document, s => do
    let db ← lift (Expr.requireDatabase host .dbInsert)
    let document ← lift (Expr.requireObject "$dbInsert document" (← evalPayload host document s))
    lift (Action.ask db (.insert collection document))
  | .dbUpdate collection criteria update, s => do
    let db ← lift (Expr.requireDatabase host .dbUpdate)
    let filter ← lift (Expr.requireObject "$dbUpdate filter" (← evalPayload host criteria s))
    let patch ← lift (Expr.requireObject "$dbUpdate update" (← evalPayload host update s))
    lift (Action.ask db (.update collection filter patch))
  | .dbDelete collection criteria, s => do
    let db ← lift (Expr.requireDatabase host .dbDelete)
    let filter ← lift (Expr.requireObject "$dbDelete filter" (← evalPayload host criteria s))
    lift (Action.ask db (.delete collection filter))
  | .merge objects, s => do
    let merged ← evalMerge host 0 [] objects s
    pure (.obj merged)
  | .present value, s => recover [.pathNotFound] (.bool false) do
    let v ← eval host value s
    pure (.bool !v.isNull)
  | .now, _ => do
    let reading ← lift (Action.readClock host)
    lift (.perform (.timestamp reading))
  | .renderString text none, s => do
    let engine ← lift (Action.takeEngine host)
    render engine (.renderIn engine · s) text s.toFields
  | .renderString text (some p), s => do
    let fields ← lift (Expr.requireObject "$renderString vars" (← evalPayload host p s))
    let engine ← lift (Action.takeEngine host)
    render engine (.render engine · fields) text fields
  | .earlyReturn value, s => do
    let v ← evalPayload host value s
    lift (throw (.returned v))
  | .validate value schema strict onFail, s => do
    let v ← eval host value s
    let schema ← lift (Expr.requireSchema host schema)
    let details ← lift (.ofExcept (Schema.violations schema v))
    if details.isEmpty then pure (.bool true) else evalReaction host strict details onFail s
  | .compare op left right, s => do
    let v ← eval host left s
    let w ← eval host right s
    Late.compare op v w
  | .and operands, s => Action.conjoin (.bool true) (evalAll host operands s)
  | .or operands, s => Action.disjoin (.bool false) (evalAll host operands s)
  | .not operand, s => do
    let v ← eval host operand s
    pure (.bool !v.truthy)
  | .arithmetic op operands, s => do
    let values ← evalNumbers host op 0 operands s
    Late.combine op values
  | .foreign v, _ => defect (.notAnOperator v)

def evalOption (host : Host σ) : Option Term → Scope → Late σ Value
  | none, _ => pure .null
  | some t, s => eval host t s

/-- What comes of a value that does not match its schema. -/
def evalReaction (host : Host σ) (strict : Option Bool) (details : List String) :
    Option Term → Scope → Late σ Value
  | some t, s => eval host t (s.child [("errors", .arr (details.map .str))])
  | none, _ =>
    if strict.getD host.settings.strictValidation then lift (.fail (.schemaViolation details))
    else pure (.bool false)

/-- The result of the first case that waits for `v`. -/
def evalCases (host : Host σ) (v : Value) (fallback : Late σ Value) :
    List (Case Term) → Scope → Late σ Value
  | [], _ => fallback
  | ⟨subject, result⟩ :: rest, s =>
    if v.equal subject then eval host result s else evalCases host v fallback rest s

def evalAll (host : Host σ) : List Term → Scope → List (Late σ Value)
  | [], _ => []
  | t :: rest, s => eval host t s :: evalAll host rest s

/-- Numbers, each found to be one before the next operand is evaluated. -/
def evalNumbers (host : Host σ) (op : Operator) (position : Nat) :
    List Term → Scope → Late σ (List Number)
  | [], _ => pure []
  | t :: rest, s => do
    let n ← lift (Expr.requireNumber op position (← eval host t s))
    let ns ← evalNumbers host op (position + 1) rest s
    pure (n :: ns)

def evalFields (host : Host σ) : List (String × Term) → Scope → Late σ (Fields Value)
  | [], _ => pure []
  | (name, t) :: rest, s => do
    let v ← eval host t s
    let vs ← evalFields host rest s
    pure ((name, v) :: vs)

def evalPayload (host : Host σ) : Payload Term → Scope → Late σ Value
  | .expr t, s => eval host t s
  | .fields fs, s => do
    let values ← evalFields host fs s
    pure (.obj values)

/-- The objects of payloads written over `merged`, one after another. -/
def evalMerge (host : Host σ) (position : Nat) (merged : Fields Value) :
    List (Payload Term) → Scope → Late σ (Fields Value)
  | [], _ => pure merged
  | p :: rest, s => do
    let fields ← lift
      (Expr.requireObject ("$merge operand " ++ toString position) (← evalPayload host p s))
    evalMerge host (position + 1) (merged.overlay fields) rest s

def evalCriteria (host : Host σ) : Option (Payload Term) → Scope → Late σ (Fields Value)
  | none, _ => pure []
  | some p, s => do lift (Expr.requireObject "$dbQuery filter" (← evalPayload host p s))

end

theorem eval_arithmetic (host : Host σ) (op : Operator) (operands : List Term) (s : Scope) :
    eval host (.arithmetic op operands) s = evalNumbers host op 0 operands s >>= Late.combine op :=
  rfl

theorem evalNumbers_cons (host : Host σ) (op : Operator) (position : Nat) (t : Term)
    (rest : List Term) (s : Scope) :
    evalNumbers host op position (t :: rest) s = (do
      let n ← lift (Expr.requireNumber op position (← eval host t s))
      let ns ← evalNumbers host op (position + 1) rest s
      pure (n :: ns)) := rfl

mutual

/-- A filter is decided late as the term of the expression that it stands for
is evaluated. -/
theorem eval_ofFilter (host : Host σ) : ∀ (f : Query.Filter) (s : Scope),
    eval host (Expr.ofFilter f).term s = Late.evalFilter f s
  | .literal _, _ => rfl
  | .path _, _ => rfl
  | .present _, _ => rfl
  | .compare op left right, s => by
      show (do
        let v ← eval host (Expr.ofFilter left).term s
        let w ← eval host (Expr.ofFilter right).term s
        Late.compare (.compare op) v w) = _
      rw [eval_ofFilter host left s, eval_ofFilter host right s]
      rfl
  | .not operand, s => by
      show (do
        let v ← eval host (Expr.ofFilter operand).term s
        pure (.bool !v.truthy) : Late σ Value) = _
      rw [eval_ofFilter host operand s]
      rfl
  | .and operands, s =>
      congrArg (Action.conjoin (.bool true)) (evalAll_ofFilters host operands s)
  | .or operands, s =>
      congrArg (Action.disjoin (.bool false)) (evalAll_ofFilters host operands s)

theorem evalAll_ofFilters (host : Host σ) : ∀ (fs : List Query.Filter) (s : Scope),
    evalAll host (Expr.termAll (Expr.ofFilters fs)) s = Late.evalFilters fs s
  | [], _ => rfl
  | f :: rest, s => by
      show eval host (Expr.ofFilter f).term s ::
        evalAll host (Expr.termAll (Expr.ofFilters rest)) s = _
      rw [eval_ofFilter host f s, evalAll_ofFilters host rest s]
      rfl

end

end Term

end Conduit
