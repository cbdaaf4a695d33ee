import Conduit.Proofs.Eval.Contract
import Mathlib.Data.List.Forall2

/-!
# Evaluation with effects of choice

The evaluation of an expression in any monad that says how to ask a database,
how to recover from a failure, and what to do about the evaluation of each
expression and filter on the way. So an evaluation can be watched without a
change to what it is.

Whatever the monad does, it does in step with the evaluation proper: a
relation between the two that holds of the single steps, and that the ways of
putting actions together keep, holds of all evaluations.
-/

namespace Conduit

namespace Action

variable {σ α β : Type}

/-- An action that makes no call of a database, and so cancels no run and
reports none. -/
def CallsNothing (act : Action σ α) : Prop :=
  ∀ w, (act.run.run w).2.calls = w.calls ∧ (act.run.run w).2.cancelled = w.cancelled ∧
    (act.run.run w).2.events = w.events

namespace CallsNothing

theorem pure (a : α) : CallsNothing (pure a : Action σ α) := fun _ => ⟨rfl, rfl, rfl⟩

theorem throw (signal : Signal) : CallsNothing (throw signal : Action σ α) :=
  fun _ => ⟨rfl, rfl, rfl⟩

theorem fail (f : Failure) : CallsNothing (.fail f : Action σ α) := throw _

theorem ofExcept (r : Except Failure α) : CallsNothing (.ofExcept r : Action σ α) := by
  cases r with
  | ok a => exact pure a
  | error f => exact fail f

theorem note (n : Note) : CallsNothing (.note n : Action σ Unit) :=
  fun _ => ⟨rfl, rfl, rfl⟩

theorem bind {x : Action σ α} {f : α → Action σ β} (hx : x.CallsNothing)
    (hf : ∀ a, (f a).CallsNothing) : CallsNothing (x >>= f) := by
  intro w
  have hw := hx w
  rw [run_bind]
  rcases h : x.run.run w with ⟨signal | a, w'⟩ <;> rw [h] at hw
  · exact hw
  · obtain ⟨hcalls, hcancelled, hevents⟩ := hf a w'
    exact ⟨hcalls.trans hw.1, hcancelled.trans hw.2.1, hevents.trans hw.2.2⟩

theorem perform (o : Operation) : CallsNothing (.perform o : Action σ Value) :=
  bind (note _) fun _ => ofExcept _

theorem readClock (host : Host σ) : CallsNothing (.readClock host) :=
  fun _ => ⟨rfl, rfl, rfl⟩

theorem takeEngine (host : Host σ) : CallsNothing (.takeEngine host) :=
  fun _ => ⟨rfl, rfl, rfl⟩

theorem requireItems (op : Operator) (v : Value) :
    CallsNothing (Expr.requireItems op v : Action σ (List Value)) := by
  cases v with
  | arr xs => exact pure xs
  | _ => exact fail _

theorem requireNumber (op : Operator) (position : Nat) (v : Value) :
    CallsNothing (Expr.requireNumber op position v : Action σ Number) := by
  cases v with
  | number n => exact pure n
  | _ => exact fail _

theorem requireObject (part : String) (v : Value) :
    CallsNothing (Expr.requireObject part v : Action σ (Fields Value)) := by
  cases v with
  | obj fs => exact pure fs
  | _ => exact fail _

theorem requireDatabase (host : Host σ) (op : Operator) :
    CallsNothing (Expr.requireDatabase host op) := by
  unfold Expr.requireDatabase
  split
  · exact pure _
  · exact fail _

theorem requireSchema (host : Host σ) (schema : SchemaRef) :
    CallsNothing (Expr.requireSchema host schema) := by
  cases schema with
  | inline fields => exact pure fields
  | named name =>
      refine bind (note _) fun _ => ?_
      split
      · exact pure _
      · exact fail _

end CallsNothing

end Action

/-- Where failures of some kinds are recovered from. -/
inductive Shield where
  /-- The operand of `$exists`. -/
  | presence
  /-- A filter of a query. -/
  | filter
  deriving DecidableEq, Repr

def Shield.kinds : Shield → List FailureKind
  | .presence => [.pathNotFound]
  | .filter => Expr.misses

/-- What an evaluation does in a monad, where that is left open. -/
structure Effects (σ : Type) (m : Type → Type) where
  /-- An action that calls nothing, as it is. -/
  lift : {α : Type} → Action σ α → m α
  ask : Database σ → Call → m Value
  /-- An action of which the failures that a shield is for have a value. -/
  recover : {α : Type} → Shield → α → m α → m α
  inFilter : {α : Type} → m α → m α
  /-- The evaluation of an expression or a filter. -/
  enter : m Value → m Value

namespace Effects

variable {σ : Type} {m : Type → Type} [Monad m]

/-! ## Filters -/

/-- Whether a value is there and is not null. -/
def isPresent (fx : Effects σ m) (value : m Value) : m Value :=
  fx.recover .presence (.bool false) do
    let v ← value
    pure (.bool !v.isNull)

mutual

/-- The value of a filter. -/
def evalFilter (fx : Effects σ m) : Query.Filter → Scope → m Value
  | .literal v, _ => fx.enter (pure v)
  | .path p, s => fx.enter (fx.lift (.perform (.read p s)))
  | .present p, s => fx.enter (fx.isPresent (fx.enter (fx.lift (.perform (.read p s)))))
  | .compare op left right, s => fx.enter do
    let v ← evalFilter fx left s
    let w ← evalFilter fx right s
    fx.lift (.perform (.compare op v w))
  | .not operand, s => fx.enter do
    let v ← evalFilter fx operand s
    pure (.bool !v.truthy)
  | .and operands, s => fx.enter (Action.conjoin (.bool true) (evalFilters fx operands s))
  | .or operands, s => fx.enter (Action.disjoin (.bool false) (evalFilters fx operands s))

def evalFilters (fx : Effects σ m) : List Query.Filter → Scope → List (m Value)
  | [], _ => []
  | f :: rest, s => evalFilter fx f s :: evalFilters fx rest s

end

/-- The judge of a query's filters: each candidate is bound to `@`. -/
def judge (fx : Effects σ m) (s : Scope) : Query.Judge m Query.Filter where
  accepts f candidate :=
    fx.recover .filter false <| fx.inFilter do
      let v ← fx.evalFilter f (s.child [("@", candidate)])
      pure v.truthy
  overrun l := fx.lift (.fail (.limit l))
  visit step v := fx.lift (.note (.operation (.step step v)))

/-! ## Expressions -/

/-- Numbers, each found to be one before the next operand is evaluated. -/
def requireNumbers (fx : Effects σ m) (op : Operator) (position : Nat) :
    List (m Value) → m (List Number)
  | [] => pure []
  | operand :: rest => do
    let n ← fx.lift (Expr.requireNumber op position (← operand))
    let ns ← requireNumbers fx op (position + 1) rest
    pure (n :: ns)

mutual

/-- The value of an expression in a scope. -/
def eval (fx : Effects σ m) (host : Host σ) : Expr → Scope → m Value
  | .literal v, _ => fx.enter (pure v)
  | .get path, s => fx.enter (fx.lift (.perform (.read path s)))
  | .jsonPath _ segments, s => fx.enter do
    let found ← Query.run (fx.judge s) segments (.obj s.toFields)
    pure (.arr found)
  | .branch condition yes no, s => fx.enter do
    let c ← eval fx host condition s
    if c.truthy then eval fx host yes s else evalOption fx host no s
  | .switch subject cases fallback, s => fx.enter do
    let v ← eval fx host subject s
    evalCases fx host v (evalOption fx host fallback s) cases s
  | .map items element body, s => fx.enter do
    let xs ← fx.lift (Expr.requireItems .map (← eval fx host items s))
    let values ← Action.mapEach (fun x => eval fx host body (s.child [(element, x)])) xs
    pure (.arr values)
  | .filter items element predicate, s => fx.enter do
    let xs ← fx.lift (Expr.requireItems .filter (← eval fx host items s))
    let kept ← Action.keepEach (fun x => eval fx host predicate (s.child [(element, x)])) xs
    pure (.arr kept)
  | .reduce items element accumulator initial body, s => fx.enter do
    let xs ← fx.lift (Expr.requireItems .reduce (← eval fx host items s))
    let start ← eval fx host initial s
    Action.foldEach
      (fun acc x => eval fx host body (s.child [(element, x), (accumulator, acc)])) start xs
  | .dbQuery collection criteria options, s => fx.enter do
    let db ← fx.lift (Expr.requireDatabase host .dbQuery)
    let filter ← evalCriteria fx host criteria s
    let answer ← fx.ask db (.query collection filter options)
    fx.lift (.perform (.rows answer))
  | .dbInsert collection document, s => fx.enter do
    let db ← fx.lift (Expr.requireDatabase host .dbInsert)
    let document ← fx.lift
      (Expr.requireObject "$dbInsert document" (← evalPayload fx host document s))
    fx.ask db (.insert collection document)
  | .dbUpdate collection criteria update, s => fx.enter do
    let db ← fx.lift (Expr.requireDatabase host .dbUpdate)
    let filter ← fx.lift (Expr.requireObject "$dbUpdate filter" (← evalPayload fx host criteria s))
    let patch ← fx.lift (Expr.requireObject "$dbUpdate update" (← evalPayload fx host update s))
    fx.ask db (.update collection filter patch)
  | .dbDelete collection criteria, s => fx.enter do
    let db ← fx.lift (Expr.requireDatabase host .dbDelete)
    let filter ← fx.lift (Expr.requireObject "$dbDelete filter" (← evalPayload fx host criteria s))
    fx.ask db (.delete collection filter)
  | .merge objects, s => fx.enter do
    let merged ← evalMerge fx host 0 [] objects s
    pure (.obj merged)
  | .present value, s => fx.enter (fx.isPresent (eval fx host value s))
  | .now, _ => fx.enter do
    let reading ← fx.lift (Action.readClock host)
    fx.lift (.perform (.timestamp reading))
  | .renderString template none, s => fx.enter do
    let engine ← fx.lift (Action.takeEngine host)
    fx.lift (.perform (.renderIn engine template s))
  | .renderString template (some p), s => fx.enter do
    let fields ← fx.lift (Expr.requireObject "$renderString vars" (← evalPayload fx host p s))
    let engine ← fx.lift (Action.takeEngine host)
    fx.lift (.perform (.render engine template fields))
  | .earlyReturn value, s => fx.enter do
    let v ← evalPayload fx host value s
    fx.lift (throw (.returned v))
  | .validate value schema strict onFail, s => fx.enter do
    let v ← eval fx host value s
    let schema ← fx.lift (Expr.requireSchema host schema)
    let details ← fx.lift (.ofExcept (Schema.violations schema v))
    if details.isEmpty then pure (.bool true) else evalReaction fx host strict details onFail s
  | .compare op left right, s => fx.enter do
    let v ← eval fx host left s
    let w ← eval fx host right s
    fx.lift (.perform (.compare op v w))
  | .and operands, s => fx.enter (Action.conjoin (.bool true) (evalAll fx host operands s))
  | .or operands, s => fx.enter (Action.disjoin (.bool false) (evalAll fx host operands s))
  | .not operand, s => fx.enter do
    let v ← eval fx host operand s
    pure (.bool !v.truthy)
  | .variadic op first second rest, s => fx.enter do
    let x ← fx.lift (Expr.requireNumber (.variadic op) 0 (← eval fx host first s))
    let y ← fx.lift (Expr.requireNumber (.variadic op) 1 (← eval fx host second s))
    let zs ← fx.requireNumbers (.variadic op) 2 (evalAll fx host rest s)
    fx.lift (.perform (.combine op x (y :: zs)))
  | .dyadic op left right, s => fx.enter do
    let x ← fx.lift (Expr.requireNumber (.dyadic op) 0 (← eval fx host left s))
    let y ← fx.lift (Expr.requireNumber (.dyadic op) 1 (← eval fx host right s))
    fx.lift (.perform (.combineTwo op x y))

def evalOption (fx : Effects σ m) (host : Host σ) : Option Expr → Scope → m Value
  | none, _ => pure .null
  | some e, s => eval fx host e s

/-- What comes of a value that does not match its schema. -/
def evalReaction (fx : Effects σ m) (host : Host σ) (strict : Option Bool)
    (details : List String) : Option Expr → Scope → m Value
  | some e, s => eval fx host e (s.child [("errors", .arr (details.map .str))])
  | none, _ =>
    if strict.getD host.settings.strictValidation then fx.lift (.fail (.schemaViolation details))
    else pure (.bool false)

/-- The result of the first case that waits for `v`. -/
def evalCases (fx : Effects σ m) (host : Host σ) (v : Value) (fallback : m Value) :
    List (Case Expr) → Scope → m Value
  | [], _ => fallback
  | ⟨subject, result⟩ :: rest, s =>
    if v.equal subject then eval fx host result s else evalCases fx host v fallback rest s

def evalAll (fx : Effects σ m) (host : Host σ) : List Expr → Scope → List (m Value)
  | [], _ => []
  | e :: rest, s => eval fx host e s :: evalAll fx host rest s

def evalFields (fx : Effects σ m) (host : Host σ) :
    List (String × Expr) → Scope → m (Fields Value)
  | [], _ => pure []
  | (name, e) :: rest, s => do
    let v ← eval fx host e s
    let vs ← evalFields fx host rest s
    pure ((name, v) :: vs)

def evalPayload (fx : Effects σ m) (host : Host σ) : Payload Expr → Scope → m Value
  | .expr e, s => eval fx host e s
  | .fields fs, s => do
    let values ← evalFields fx host fs s
    pure (.obj values)

/-- The objects of payloads written over `merged`, one after another. -/
def evalMerge (fx : Effects σ m) (host : Host σ) (position : Nat) (merged : Fields Value) :
    List (Payload Expr) → Scope → m (Fields Value)
  | [], _ => pure merged
  | p :: rest, s => do
    let fields ← fx.lift
      (Expr.requireObject ("$merge operand " ++ toString position) (← evalPayload fx host p s))
    evalMerge fx host (position + 1) (merged.overlay fields) rest s

def evalCriteria (fx : Effects σ m) (host : Host σ) :
    Option (Payload Expr) → Scope → m (Fields Value)
  | none, _ => pure []
  | some p, s => do
    fx.lift (Expr.requireObject "$dbQuery filter" (← evalPayload fx host p s))

end

/-- No expression is left out. -/
theorem eval_eq_enter (fx : Effects σ m) (host : Host σ) (e : Expr) (s : Scope) :
    ∃ act, fx.eval host e s = fx.enter act := by
  cases e with
  | renderString template vars => cases vars <;> exact ⟨_, rfl⟩
  | _ => exact ⟨_, rfl⟩

/-! ## In step with the evaluation proper -/

/-- A relation to actions of the evaluation proper that all effects keep. -/
structure Follows (fx : Effects σ m) (R : ∀ {α : Type}, m α → Action σ α → Prop) : Prop where
  pure : ∀ {α : Type} (a : α), R (pure a) (pure a)
  bind : ∀ {α β : Type} {x : m α} {y : Action σ α} {f : α → m β} {g : α → Action σ β},
    R x y → (∀ a, R (f a) (g a)) → R (x >>= f) (y >>= g)
  lift : ∀ {α : Type} {act : Action σ α}, act.CallsNothing → R (fx.lift act) act
  ask : ∀ (db : Database σ) (call : Call), R (fx.ask db call) (.ask db call)
  recover : ∀ {α : Type} {x : m α} {y : Action σ α} (shield : Shield) (a : α),
    R x y → R (fx.recover shield a x) (.recover shield.kinds a y)
  inFilter : ∀ {α : Type} {x : m α} {y : Action σ α}, R x y → R (fx.inFilter x) y.inFilter
  enter : ∀ {x : m Value} {y : Action σ Value}, R x y → R (fx.enter x) y

namespace Follows

open Action (CallsNothing)

variable {fx : Effects σ m} {R : ∀ {α : Type}, m α → Action σ α → Prop}

/-! ### One after another -/

theorem mapEach (h : fx.Follows R) {f : Value → m Value} {g : Value → Action σ Value}
    (hfg : ∀ x, R (f x) (g x)) (xs : List Value) :
    R (Action.mapEach f xs) (Action.mapEach g xs) := by
  induction xs with
  | nil => exact h.pure _
  | cons x xs ih => exact h.bind (hfg x) fun _ => h.bind ih fun _ => h.pure _

theorem keepEach (h : fx.Follows R) {f : Value → m Value} {g : Value → Action σ Value}
    (hfg : ∀ x, R (f x) (g x)) (xs : List Value) :
    R (Action.keepEach f xs) (Action.keepEach g xs) := by
  induction xs with
  | nil => exact h.pure _
  | cons x xs ih => exact h.bind (hfg x) fun _ => h.bind ih fun _ => h.pure _

theorem foldEach (h : fx.Follows R) {f : Value → Value → m Value}
    {g : Value → Value → Action σ Value} (hfg : ∀ acc x, R (f acc x) (g acc x)) (xs : List Value)
    (acc : Value) : R (Action.foldEach f acc xs) (Action.foldEach g acc xs) := by
  induction xs generalizing acc with
  | nil => exact h.pure _
  | cons x xs ih => exact h.bind (hfg acc x) fun next => ih next

theorem conjoin (h : fx.Follows R) {xs : List (m Value)} {ys : List (Action σ Value)}
    (hxy : List.Forall₂ R xs ys) (last : Value) :
    R (Action.conjoin last xs) (Action.conjoin last ys) := by
  induction hxy generalizing last with
  | nil => exact h.pure _
  | cons hact _ ih =>
      refine h.bind hact fun v => ?_
      split
      · exact ih v
      · exact h.pure v

theorem disjoin (h : fx.Follows R) {xs : List (m Value)} {ys : List (Action σ Value)}
    (hxy : List.Forall₂ R xs ys) (last : Value) :
    R (Action.disjoin last xs) (Action.disjoin last ys) := by
  induction hxy generalizing last with
  | nil => exact h.pure _
  | cons hact _ ih =>
      refine h.bind hact fun v => ?_
      split
      · exact h.pure v
      · exact ih v

theorem requireNumbers (h : fx.Follows R) {op : Operator} {xs : List (m Value)}
    {ys : List (Action σ Value)} (hxy : List.Forall₂ R xs ys) (position : Nat) :
    R (fx.requireNumbers op position xs) (Expr.requireNumbers op position ys) := by
  induction hxy generalizing position with
  | nil => exact h.pure _
  | cons hact _ ih =>
      refine h.bind hact fun v => h.bind (h.lift (.requireNumber op position v)) fun n => ?_
      exact h.bind (ih _) fun _ => h.pure _

/-! ### Queries -/

theorem isPresent (h : fx.Follows R) {x : m Value} {y : Action σ Value} (hxy : R x y) :
    R (fx.isPresent x) (Expr.isPresent y) :=
  h.recover .presence _ (h.bind hxy fun _ => h.pure _)

mutual

theorem evalFilter (h : fx.Follows R) : ∀ (f : Query.Filter) (s : Scope),
    R (fx.evalFilter f s) (Expr.evalFilter f s)
  | .literal v, _ => h.enter (h.pure v)
  | .path p, s => h.enter (h.lift (.perform _))
  | .present p, s => h.enter (h.isPresent (h.enter (h.lift (.perform _))))
  | .compare op left right, s => by
      refine h.enter (h.bind (evalFilter h left s) fun v => ?_)
      exact h.bind (evalFilter h right s) fun w => h.lift (.perform _)
  | .not operand, s => h.enter (h.bind (evalFilter h operand s) fun _ => h.pure _)
  | .and operands, s => h.enter (h.conjoin (evalFilters h operands s) _)
  | .or operands, s => h.enter (h.disjoin (evalFilters h operands s) _)

theorem evalFilters (h : fx.Follows R) : ∀ (fs : List Query.Filter) (s : Scope),
    List.Forall₂ R (fx.evalFilters fs s) (Expr.evalFilters fs s)
  | [], _ => .nil
  | f :: rest, s => .cons (evalFilter h f s) (evalFilters h rest s)

end

theorem keep (h : fx.Follows R) (f : Query.Filter) (s : Scope) (vs : List Value) :
    R (Query.keep (fx.judge s) f vs) (Query.keep (Expr.judge s) f vs) := by
  induction vs with
  | nil => exact h.pure _
  | cons v rest ih =>
      have hvalue := h.bind (h.evalFilter f (s.child [("@", v)])) fun v => h.pure v.truthy
      refine h.bind (h.recover .filter false (h.inFilter hvalue)) fun _ => ?_
      exact h.bind ih fun _ => h.pure _

theorem collect (h : fx.Follows R) {f : Value → m (List Value)}
    {g : Value → Action σ (List Value)} (hfg : ∀ v, R (f v) (g v)) (vs : List Value) :
    R (Query.collect f vs) (Query.collect g vs) := by
  induction vs with
  | nil => exact h.pure _
  | cons v rest ih => exact h.bind (hfg v) fun _ => h.bind ih fun _ => h.pure _

mutual

theorem select (h : fx.Follows R) (s : Scope) : ∀ (segment : Segment Query.Filter) (v : Value),
    R (Query.select (fx.judge s) segment v) (Query.select (Expr.judge s) segment v)
  | .step st, v => by
      unfold Query.select
      refine h.bind (h.lift (.note _)) fun _ => ?_
      cases Query.selectStep st v with
      | ok found => exact h.pure found
      | error l => exact h.lift (.fail _)
  | .wildcard, v => h.pure v.children
  | .slice sl, v => by
      unfold Query.select
      split
      · exact h.pure _
      · exact h.pure _
  | .filter f, v => h.keep f s v.children
  | .selection selectors, v => selectAll h s selectors v
  | .descent inner, v => h.collect (fun w => select h s inner w) v.descendants

theorem selectAll (h : fx.Follows R) (s : Scope) :
    ∀ (segments : List (Segment Query.Filter)) (v : Value),
    R (Query.selectAll (fx.judge s) segments v) (Query.selectAll (Expr.judge s) segments v)
  | [], _ => h.pure _
  | segment :: rest, v => by
      refine h.bind (select h s segment v) fun _ => ?_
      exact h.bind (selectAll h s rest v) fun _ => h.pure _

end

theorem runFrom (h : fx.Follows R) (s : Scope) (segments : List (Segment Query.Filter))
    (found : List Value) :
    R (Query.runFrom (fx.judge s) segments found)
      (Query.runFrom (Expr.judge s) segments found) := by
  induction segments generalizing found with
  | nil => exact h.pure found
  | cons segment rest ih =>
      exact h.bind (h.collect (fun v => h.select s segment v) found) fun next => ih next

/-! ### Expressions -/

mutual

/-- An evaluation with effects is in step with the evaluation proper. -/
theorem eval (h : fx.Follows R) (host : Host σ) : ∀ (e : Expr) (s : Scope),
    R (fx.eval host e s) (e.eval host s)
  | .literal v, _ => h.enter (h.pure v)
  | .get path, s => h.enter (h.lift (.perform _))
  | .jsonPath _ segments, s => h.enter (h.bind (h.runFrom s segments _) fun _ => h.pure _)
  | .branch condition yes no, s => by
      refine h.enter (h.bind (eval h host condition s) fun v => ?_)
      split
      · exact eval h host yes s
      · exact evalOption h host no s
  | .switch subject cases fallback, s => by
      refine h.enter (h.bind (eval h host subject s) fun v => ?_)
      exact evalCases h host v (evalOption h host fallback s) cases s
  | .map items element body, s => by
      refine h.enter (h.bind (eval h host items s) fun v => ?_)
      refine h.bind (h.lift (.requireItems .map v)) fun xs => ?_
      exact h.bind (h.mapEach (fun x => eval h host body _) xs) fun _ => h.pure _
  | .filter items element predicate, s => by
      refine h.enter (h.bind (eval h host items s) fun v => ?_)
      refine h.bind (h.lift (.requireItems .filter v)) fun xs => ?_
      exact h.bind (h.keepEach (fun x => eval h host predicate _) xs) fun _ => h.pure _
  | .reduce items element accumulator initial body, s => by
      refine h.enter (h.bind (eval h host items s) fun v => ?_)
      refine h.bind (h.lift (.requireItems .reduce v)) fun xs => ?_
      refine h.bind (eval h host initial s) fun start => ?_
      exact h.foldEach (fun acc x => eval h host body _) xs start
  | .dbQuery _ criteria _, s => by
      refine h.enter (h.bind (h.lift (.requireDatabase host .dbQuery)) fun db => ?_)
      refine h.bind (evalCriteria h host criteria s) fun _ => ?_
      exact h.bind (h.ask db _) fun _ => h.lift (.perform _)
  | .dbInsert _ document, s => by
      refine h.enter (h.bind (h.lift (.requireDatabase host .dbInsert)) fun db => ?_)
      refine h.bind (evalPayload h host document s) fun v => ?_
      exact h.bind (h.lift (.requireObject _ v)) fun _ => h.ask db _
  | .dbUpdate _ criteria update, s => by
      refine h.enter (h.bind (h.lift (.requireDatabase host .dbUpdate)) fun db => ?_)
      refine h.bind (evalPayload h host criteria s) fun v => ?_
      refine h.bind (h.lift (.requireObject _ v)) fun _ => ?_
      refine h.bind (evalPayload h host update s) fun w => ?_
      exact h.bind (h.lift (.requireObject _ w)) fun _ => h.ask db _
  | .dbDelete _ criteria, s => by
      refine h.enter (h.bind (h.lift (.requireDatabase host .dbDelete)) fun db => ?_)
      refine h.bind (evalPayload h host criteria s) fun v => ?_
      exact h.bind (h.lift (.requireObject _ v)) fun _ => h.ask db _
  | .merge objects, s => h.enter (h.bind (evalMerge h host 0 [] objects s) fun _ => h.pure _)
  | .present value, s => h.enter (h.isPresent (eval h host value s))
  | .now, _ => h.enter (h.bind (h.lift (.readClock host)) fun _ => h.lift (.perform _))
  | .renderString _ none, s =>
      h.enter (h.bind (h.lift (.takeEngine host)) fun _ => h.lift (.perform _))
  | .renderString _ (some p), s => by
      refine h.enter (h.bind (evalPayload h host p s) fun v => ?_)
      refine h.bind (h.lift (.requireObject _ v)) fun _ => ?_
      exact h.bind (h.lift (.takeEngine host)) fun _ => h.lift (.perform _)
  | .earlyReturn value, s =>
      h.enter (h.bind (evalPayload h host value s) fun _ => h.lift (.throw _))
  | .validate value schema strict onFail, s => by
      refine h.enter (h.bind (eval h host value s) fun v => ?_)
      refine h.bind (h.lift (.requireSchema host schema)) fun fields => ?_
      refine h.bind (h.lift (.ofExcept _)) fun details => ?_
      split
      · exact h.pure _
      · exact evalReaction h host strict details onFail s
  | .compare op left right, s => by
      refine h.enter (h.bind (eval h host left s) fun v => ?_)
      exact h.bind (eval h host right s) fun w => h.lift (.perform _)
  | .and operands, s => h.enter (h.conjoin (evalAll h host operands s) _)
  | .or operands, s => h.enter (h.disjoin (evalAll h host operands s) _)
  | .not operand, s => h.enter (h.bind (eval h host operand s) fun _ => h.pure _)
  | .variadic op first second rest, s => by
      refine h.enter (h.bind (eval h host first s) fun v => ?_)
      refine h.bind (h.lift (.requireNumber (.variadic op) 0 v)) fun x => ?_
      refine h.bind (eval h host second s) fun w => ?_
      refine h.bind (h.lift (.requireNumber (.variadic op) 1 w)) fun y => ?_
      exact h.bind (h.requireNumbers (evalAll h host rest s) 2) fun zs => h.lift (.perform _)
  | .dyadic op left right, s => by
      refine h.enter (h.bind (eval h host left s) fun v => ?_)
      refine h.bind (h.lift (.requireNumber (.dyadic op) 0 v)) fun x => ?_
      refine h.bind (eval h host right s) fun w => ?_
      exact h.bind (h.lift (.requireNumber (.dyadic op) 1 w)) fun y => h.lift (.perform _)

theorem evalOption (h : fx.Follows R) (host : Host σ) : ∀ (o : Option Expr) (s : Scope),
    R (fx.evalOption host o s) (Expr.evalOption host o s)
  | none, _ => h.pure _
  | some e, s => eval h host e s

theorem evalReaction (h : fx.Follows R) (host : Host σ) (strict : Option Bool)
    (details : List String) : ∀ (o : Option Expr) (s : Scope),
    R (fx.evalReaction host strict details o s) (Expr.evalReaction host strict details o s)
  | some e, s => eval h host e _
  | none, _ => by
      unfold Effects.evalReaction Expr.evalReaction
      split
      · exact h.lift (.fail _)
      · exact h.pure _

theorem evalCases (h : fx.Follows R) (host : Host σ) (v : Value) {x : m Value}
    {y : Action σ Value} (hxy : R x y) : ∀ (cases : List (Case Expr)) (s : Scope),
    R (fx.evalCases host v x cases s) (Expr.evalCases host v y cases s)
  | [], _ => hxy
  | ⟨subject, result⟩ :: rest, s => by
      unfold Effects.evalCases Expr.evalCases
      split
      · exact eval h host result s
      · exact evalCases h host v hxy rest s

theorem evalAll (h : fx.Follows R) (host : Host σ) : ∀ (es : List Expr) (s : Scope),
    List.Forall₂ R (fx.evalAll host es s) (Expr.evalAll host es s)
  | [], _ => .nil
  | e :: rest, s => .cons (eval h host e s) (evalAll h host rest s)

theorem evalFields (h : fx.Follows R) (host : Host σ) :
    ∀ (fs : List (String × Expr)) (s : Scope),
    R (fx.evalFields host fs s) (Expr.evalFields host fs s)
  | [], _ => h.pure _
  | (_, e) :: rest, s => by
      refine h.bind (eval h host e s) fun _ => ?_
      exact h.bind (evalFields h host rest s) fun _ => h.pure _

theorem evalPayload (h : fx.Follows R) (host : Host σ) : ∀ (p : Payload Expr) (s : Scope),
    R (fx.evalPayload host p s) (Expr.evalPayload host p s)
  | .expr e, s => eval h host e s
  | .fields fs, s => h.bind (evalFields h host fs s) fun _ => h.pure _

theorem evalMerge (h : fx.Follows R) (host : Host σ) (position : Nat) (merged : Fields Value) :
    ∀ (ps : List (Payload Expr)) (s : Scope),
    R (fx.evalMerge host position merged ps s) (Expr.evalMerge host position merged ps s)
  | [], _ => h.pure _
  | p :: rest, s => by
      refine h.bind (evalPayload h host p s) fun v => ?_
      refine h.bind (h.lift (.requireObject _ v)) fun fields => ?_
      exact evalMerge h host (position + 1) (merged.overlay fields) rest s

theorem evalCriteria (h : fx.Follows R) (host : Host σ) :
    ∀ (o : Option (Payload Expr)) (s : Scope),
    R (fx.evalCriteria host o s) (Expr.evalCriteria host o s)
  | none, _ => h.pure _
  | some p, s => h.bind (evalPayload h host p s) fun v => h.lift (.requireObject _ v)

end

end Follows

end Effects

end Conduit
