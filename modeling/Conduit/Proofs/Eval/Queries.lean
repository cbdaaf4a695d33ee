import Conduit.Proofs.Eval.Contract

/-!
# Queries keep contracts

A query does nothing but take steps and decide filters, and a filter does
nothing but read paths and compare values. So a query keeps a contract as
soon as the contract covers one that permits the reading of every path;
what is read inside a filter is not held against the names outside.
-/

namespace Conduit

namespace Expr

open Action

variable {σ : Type} {c inner : Contract}

/-! ## Filters -/

mutual

/-- The value of a filter is that of the expression which it stands for. -/
theorem eval_ofFilter (host : Host σ) : ∀ (f : Query.Filter) (s : Scope),
    eval host (ofFilter f) s = evalFilter f s
  | .literal _, _ => rfl
  | .path _, _ => rfl
  | .present _, _ => rfl
  | .compare op left right, s => by
      show (do
        let v ← eval host (ofFilter left) s
        let w ← eval host (ofFilter right) s
        .perform (.compare op v w)) = _
      rw [eval_ofFilter host left s, eval_ofFilter host right s]
      rfl
  | .not operand, s => by
      show (do
        let v ← eval host (ofFilter operand) s
        pure (.bool !v.truthy) : Action σ Value) = _
      rw [eval_ofFilter host operand s]
      rfl
  | .and operands, s => congrArg (conjoin (.bool true)) (evalAll_ofFilters host operands s)
  | .or operands, s => congrArg (disjoin (.bool false)) (evalAll_ofFilters host operands s)

theorem evalAll_ofFilters (host : Host σ) : ∀ (fs : List Query.Filter) (s : Scope),
    evalAll host (ofFilters fs) s = evalFilters fs s
  | [], _ => rfl
  | f :: rest, s => by
      show eval host (ofFilter f) s :: evalAll host (ofFilters rest) s = _
      rw [eval_ofFilter host f s, evalAll_ofFilters host rest s]
      rfl

end

mutual

theorem evalFilter_meets (hr : ∀ p s, inner.Permits (.read p s)) :
    ∀ (f : Query.Filter) (s : Scope), Meets inner (evalFilter f s : Action σ Value)
  | .literal v, _ => .pure v
  | .path p, s => .perform (hr p s)
  | .present p, s => isPresent_meets (.perform (hr p s))
  | .compare op left right, s => by
      refine .bind (evalFilter_meets hr left s) fun v => ?_
      exact .bind (evalFilter_meets hr right s) fun w => .perform (inner.closed rfl)
  | .not operand, s => .bind (evalFilter_meets hr operand s) fun _ => .pure _
  | .and operands, s => .conjoin (evalFilters_meets hr operands s) _
  | .or operands, s => .disjoin (evalFilters_meets hr operands s) _

theorem evalFilters_meets (hr : ∀ p s, inner.Permits (.read p s)) :
    ∀ (fs : List Query.Filter) (s : Scope), ∀ act ∈ (evalFilters fs s : List (Action σ Value)),
      Meets inner act
  | [], _ => by simp [evalFilters]
  | f :: rest, s => by
      rw [evalFilters, List.forall_mem_cons]
      exact ⟨evalFilter_meets hr f s, evalFilters_meets hr rest s⟩

end

theorem accepts_meets (hc : c.Covers inner) (hr : ∀ p s, inner.Permits (.read p s)) (s : Scope)
    (f : Query.Filter) (candidate : Value) :
    Meets c ((judge s).accepts f candidate : Action σ Bool) :=
  .recover (.inFilter hc (.bind (evalFilter_meets hr f _) fun _ => .pure _))

/-! ## Segments -/

/-- A step of a query is noted and done like any other operation. -/
theorem selectStep_meets (s : Scope) (st : Step) (v : Value) :
    Meets c (Query.select (judge s) (.step st) v : Action σ (List Value)) := by
  intro w
  have h := c.closed (o := .step st v) rfl
  refine ⟨[.operation (.step st v)], ?_, ?_⟩
  · unfold Query.select
    cases Query.selectStep st v <;> rfl
  · simp only [Operation.stop?, Operation.result] at h
    unfold Query.select
    cases hr : Query.selectStep st v <;> rw [hr] at h <;> exact h

theorem keep_meets (hc : c.Covers inner) (hr : ∀ p s, inner.Permits (.read p s)) (s : Scope)
    (f : Query.Filter) (vs : List Value) :
    Meets c (Query.keep (judge s) f vs : Action σ (List Value)) := by
  induction vs with
  | nil => exact .pure _
  | cons v rest ih =>
      exact .bind (accepts_meets hc hr s f v) fun _ => .bind ih fun _ => .pure _

theorem collect_meets {find : Value → Action σ (List Value)} (h : ∀ v, Meets c (find v))
    (vs : List Value) : Meets c (Query.collect find vs) := by
  induction vs with
  | nil => exact .pure _
  | cons v rest ih => exact .bind (h v) fun _ => .bind ih fun _ => .pure _

mutual

theorem select_meets (hc : c.Covers inner) (hr : ∀ p s, inner.Permits (.read p s)) (s : Scope) :
    ∀ (segment : Segment Query.Filter) (v : Value),
      Meets c (Query.select (judge s) segment v : Action σ (List Value))
  | .step st, v => selectStep_meets s st v
  | .wildcard, v => .pure v.children
  | .slice sl, v => by
      unfold Query.select
      split
      · exact .pure _
      · exact .pure _
  | .filter f, v => keep_meets hc hr s f v.children
  | .selection ss, v => selectAll_meets hc hr s ss v
  | .descent inside, v => collect_meets (select_meets hc hr s inside) v.descendants

theorem selectAll_meets (hc : c.Covers inner) (hr : ∀ p s, inner.Permits (.read p s)) (s : Scope) :
    ∀ (segments : List (Segment Query.Filter)) (v : Value),
      Meets c (Query.selectAll (judge s) segments v : Action σ (List Value))
  | [], _ => .pure _
  | segment :: rest, v =>
      .bind (select_meets hc hr s segment v) fun _ =>
        .bind (selectAll_meets hc hr s rest v) fun _ => .pure _

end

/-- A query keeps a contract under which filters may read any path. -/
theorem query_meets (hc : c.Covers inner) (hr : ∀ p s, inner.Permits (.read p s)) (s : Scope)
    (segments : List (Segment Query.Filter)) (root : Value) :
    Meets c (Query.run (judge s) segments root : Action σ (List Value)) := by
  unfold Query.run
  generalize [root] = found
  induction segments generalizing found with
  | nil => exact .pure found
  | cons segment rest ih =>
      exact .bind (collect_meets (select_meets hc hr s segment) found) fun next => ih next

end Expr

end Conduit
