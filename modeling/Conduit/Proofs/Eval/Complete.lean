import Conduit.Proofs.Eval.Contract
import Conduit.Proofs.Eval.Late

/-!
# What was read evaluates without defects

Late evaluation of the term of an expression that was read is its evaluation:
no text that it reads again is wrong, no operand is missing and no node is out
of place. So none of the ways in which a term can be defective is ever met,
in any scope, with any host and in any state of the world.

Both evaluations are put together in the same way from what they do, so that
it is enough to know that each step of the one is a step of the other.
-/

namespace Conduit

variable {σ α β : Type}

namespace Late

theorem run_lift (act : Action σ α) (w : World σ) :
    (lift act).run.run.run w = ((act.run.run w).1.map .ok, (act.run.run w).2) := by
  show (do let a ← act; Pure.pure (Except.ok a) : Action σ (Except Defect α)).run.run w = _
  rw [Action.run_bind]
  rcases act.run.run w with ⟨signal | a, w'⟩ <;> rfl

theorem run_bind (x : Late σ α) (f : α → Late σ β) (w : World σ) :
    (x >>= f).run.run.run w = match x.run.run.run w with
      | (.ok (.ok a), w') => (f a).run.run.run w'
      | (.ok (.error d), w') => (.ok (.error d), w')
      | (.error signal, w') => (.error signal, w') := by
  rw [ExceptT.run_bind]
  rw [Action.run_bind]
  rcases x.run.run.run w with ⟨signal | (d | a), w'⟩ <;> rfl

/-- A late action that does what an action does and has no defect. -/
def Lifts (late : Late σ α) (act : Action σ α) : Prop := late = lift act

namespace Lifts

variable {late : Late σ α} {act : Action σ α}

theorem lift (act : Action σ α) : Lifts (Late.lift act) act := rfl

theorem pure (a : α) : Lifts (pure a : Late σ α) (pure a) := rfl

theorem bind {x : Late σ α} {y : Action σ α} {f : α → Late σ β} {g : α → Action σ β}
    (hx : Lifts x y) (hf : ∀ a, Lifts (f a) (g a)) : Lifts (x >>= f) (y >>= g) := by
  funext w
  show (x >>= f).run.run.run w = (Late.lift (y >>= g)).run.run.run w
  rw [run_bind, hx, run_lift, run_lift, Action.run_bind]
  rcases y.run.run w with ⟨signal | a, w'⟩
  · rfl
  · show (f a).run.run.run w' = _
    rw [hf a, run_lift]

theorem recover {kinds : List FailureKind} {v : α} (h : Lifts late act) :
    Lifts (Late.recover kinds v late) (Action.recover kinds v act) := by
  funext w
  show (Action.recover kinds (Except.ok v) late.run).run.run w =
    (Late.lift (Action.recover kinds v act)).run.run.run w
  rw [h, run_lift, Action.run_recover, Action.run_recover, run_lift]
  rcases act.run.run w with ⟨(f | u) | a, w'⟩
  · dsimp only [Except.map]
    split <;> rfl
  · rfl
  · rfl

theorem inFilter (h : Lifts late act) : Lifts (Late.inFilter late) act.inFilter := by
  funext w
  show (Action.inFilter late.run).run.run w = (Late.lift act.inFilter).run.run.run w
  have hrun := run_lift act { w with notes := [] }
  rw [h, run_lift, Action.run_inFilter, Action.run_inFilter, hrun]

/-! ## One after another -/

variable {late : Value → Late σ Value} {act : Value → Action σ Value}

theorem mapEach (h : ∀ x, Lifts (late x) (act x)) (xs : List Value) :
    Lifts (Action.mapEach late xs) (Action.mapEach act xs) := by
  induction xs with
  | nil => exact .pure _
  | cons x xs ih => exact .bind (h x) fun _ => .bind ih fun _ => .pure _

theorem keepEach (h : ∀ x, Lifts (late x) (act x)) (xs : List Value) :
    Lifts (Action.keepEach late xs) (Action.keepEach act xs) := by
  induction xs with
  | nil => exact .pure _
  | cons x xs ih => exact .bind (h x) fun _ => .bind ih fun _ => .pure _

theorem foldEach {late : Value → Value → Late σ Value} {act : Value → Value → Action σ Value}
    (h : ∀ acc x, Lifts (late acc x) (act acc x)) (xs : List Value) (acc : Value) :
    Lifts (Action.foldEach late acc xs) (Action.foldEach act acc xs) := by
  induction xs generalizing acc with
  | nil => exact .pure _
  | cons x xs ih => exact .bind (h acc x) fun next => ih next

theorem conjoin {lates : List (Late σ Value)} {acts : List (Action σ Value)}
    (h : lates = acts.map Late.lift) (last : Value) :
    Lifts (Action.conjoin last lates) (Action.conjoin last acts) := by
  subst h
  induction acts generalizing last with
  | nil => exact .pure _
  | cons act rest ih =>
      refine .bind (.lift act) fun v => ?_
      split
      · exact ih v
      · exact .pure v

theorem disjoin {lates : List (Late σ Value)} {acts : List (Action σ Value)}
    (h : lates = acts.map Late.lift) (last : Value) :
    Lifts (Action.disjoin last lates) (Action.disjoin last acts) := by
  subst h
  induction acts generalizing last with
  | nil => exact .pure _
  | cons act rest ih =>
      refine .bind (.lift act) fun v => ?_
      split
      · exact .pure v
      · exact ih v

end Lifts

/-! ## Texts -/

theorem resolve_steps (text : String) (steps : List Step) (v : Value) :
    Segment.resolve text (steps.map (Segment.step (P := Query.Filter))) v =
      (DotPath.follow text steps v).mapError .failure := by
  induction steps generalizing v with
  | nil => rfl
  | cons s rest ih =>
      rw [List.map_cons, Segment.resolve, DotPath.follow]
      cases s.follow text v with
      | error f => rfl
      | ok w => exact ih w

theorem pathTexts_steps (steps : List Step) (first : Bool) :
    Segment.pathTexts first (steps.map (Segment.step (P := Query.Filter))) =
      (DotPath.formatSteps first steps).mapError .limit := by
  induction steps generalizing first with
  | nil => rfl
  | cons s rest ih =>
      rw [List.map_cons, Segment.pathTexts, DotPath.formatSteps, ih]
      cases s.text first with
      | error l => rfl
      | ok head => cases DotPath.formatSteps false rest <;> rfl

theorem pathText_steps (steps : List Step) :
    Segment.pathText (steps.map (Segment.step (P := Query.Filter))) =
      (DotPath.format steps).mapError .limit := by
  rw [Segment.pathText, DotPath.format, pathTexts_steps]
  cases DotPath.formatSteps true steps <;> rfl

theorem follow_lifts (text : String) (steps : List Step) (v : Value) :
    Lifts (follow text (steps.map .step) v : Late σ Value)
      (.ofExcept (DotPath.follow text steps v)) := by
  rw [follow, resolve_steps]
  cases DotPath.follow text steps v <;> rfl

theorem parsePath_eq {path : DotPath} (h : path.Rereads) :
    (parsePath path.text : Late σ DotPath) = pure path := by
  unfold parsePath
  rw [h]

theorem read_lifts {path : DotPath} (h : path.Rereads) (s : Scope) :
    Lifts (Late.read path.text s : Late σ Value) (.perform (.read path s)) := by
  rw [Late.read, parsePath_eq h, pure_bind]
  refine .bind (.lift _) fun _ => ?_
  show Lifts ((s.get? path.head).elim (Late.lift (.fail (.pathNotFound path.text)))
    (follow path.text (path.rest.map .step))) (.ofExcept (s.resolve path))
  rw [Scope.resolve]
  cases s.get? path.head with
  | some v => exact follow_lifts path.text path.rest v
  | none => exact .lift (.fail (.pathNotFound path.text))

theorem resolve_eq_follow (path : DotPath) (fields : Fields Value) :
    path.resolve fields = DotPath.follow path.text path.steps (.obj fields) := by
  rw [DotPath.resolve, DotPath.steps, DotPath.follow, Step.follow, Value.field?]
  · cases Fields.get? path.head fields <;> rfl
  · intro xs h
    cases h

theorem placeholder_lifts (fields : Fields Value) (path : DotPath) :
    Lifts (placeholder fields path : Late σ Value)
      (.ofExcept (Template.resolvePath fields path)) := by
  unfold placeholder Template.resolvePath segmentsOf
  rw [pathText_steps]
  cases DotPath.format path.steps with
  | error l => exact .lift (.fail (.limit l))
  | ok text =>
      show Lifts _ (.ofExcept (DotPath.resolve { path with text := text } fields))
      rw [resolve_eq_follow]
      exact follow_lifts text path.steps (.obj fields)

/-- What is computed in steps can be acted in steps. -/
theorem ofExcept_bind (r : Except Failure α) (f : α → Except Failure β) :
    (.ofExcept (r >>= f) : Action σ β) = .ofExcept r >>= fun a => .ofExcept (f a) := by
  cases r <;> rfl

theorem mapM_lifts {late : α → Late σ β} {act : α → Except Failure β}
    (h : ∀ a, Lifts (late a) (.ofExcept (act a))) (as : List α) :
    Lifts (as.mapM late) (.ofExcept (as.mapM act)) := by
  induction as with
  | nil => exact .pure _
  | cons a as ih =>
      rw [List.mapM_cons, List.mapM_cons, ofExcept_bind]
      refine .bind (h a) fun b => ?_
      rw [ofExcept_bind]
      exact .bind ih fun bs => .pure _

theorem render_lifts {engine : Engine} {operation : Template → Operation} {template : Template}
    {fields : Fields Value} (h : template.Rereads)
    (ho : (operation template).result = (template.render engine fields).map .str) :
    Lifts (render engine operation template.text fields : Late σ Value)
      (.perform (operation template)) := by
  have hparse : (parseTemplate template.text : Late σ Template) = pure template := by
    unfold parseTemplate
    rw [h]
  rw [render, hparse, pure_bind]
  refine .bind (.lift _) fun _ => ?_
  have hrender : (template.render engine fields).map Value.str =
      template.paths.mapM (Template.resolvePath fields) >>= fun values =>
        template.output engine fields values >>= fun text => .ok (.str text) := by
    rw [Template.render]
    cases template.paths.mapM (Template.resolvePath fields) with
    | error f => rfl
    | ok values =>
        dsimp only [Bind.bind, Except.bind]
        cases template.output engine fields values <;> rfl
  rw [ho, hrender, ofExcept_bind]
  refine .bind (mapM_lifts (placeholder_lifts fields) template.paths) fun values => ?_
  rw [ofExcept_bind]
  exact .bind (.lift _) fun text => .pure _

/-! ## Filters -/

section Filters

open Query

mutual

theorem evalFilter_lifts : ∀ {f : Filter} (s : Scope), f.Rereads →
    Lifts (Late.evalFilter f s : Late σ Value) (Expr.evalFilter f s)
  | .literal v, _, _ => .pure v
  | .path p, s, h => read_lifts (h p (by simp [Filter.paths])) s
  | .present p, s, h => by
      have hread := read_lifts (σ := σ) (h p (by simp [Filter.paths])) s
      exact .recover (.bind hread fun _ => .pure _)
  | .compare op left right, s, h => by
      simp only [Filter.Rereads, Filter.paths, List.forall_mem_append] at h
      refine .bind (evalFilter_lifts s h.1) fun v => ?_
      exact .bind (evalFilter_lifts s h.2) fun w => .lift _
  | .not operand, s, h => .bind (evalFilter_lifts (f := operand) s h) fun _ => .pure _
  | .and operands, s, h => .conjoin (evalFilters_lift s h) _
  | .or operands, s, h => .disjoin (evalFilters_lift s h) _

theorem evalFilters_lift : ∀ {fs : List Filter} (s : Scope), (∀ p ∈ Filter.pathsAll fs, p.Rereads) →
    (Late.evalFilters fs s : List (Late σ Value)) = (Expr.evalFilters fs s).map Late.lift
  | [], _, _ => rfl
  | f :: rest, s, h => by
      simp only [Filter.pathsAll, List.forall_mem_append] at h
      show Late.evalFilter f s :: Late.evalFilters rest s = _
      rw [show Late.evalFilter f s = _ from evalFilter_lifts s h.1, evalFilters_lift s h.2]
      rfl

end

/-! ## Queries -/

theorem accepts_lifts {f : Filter} (h : f.Rereads) (s : Scope) (candidate : Value) :
    Lifts ((Late.judge s).accepts f candidate : Late σ Bool)
      ((Expr.judge s).accepts f candidate) :=
  .recover (.inFilter (.bind (evalFilter_lifts _ h) fun _ => .pure _))

theorem keep_lifts {f : Filter} (h : f.Rereads) (s : Scope) (vs : List Value) :
    Lifts (keep (Late.judge s) f vs : Late σ (List Value)) (keep (Expr.judge s) f vs) := by
  induction vs with
  | nil => exact .pure _
  | cons v rest ih => exact .bind (accepts_lifts h s v) fun _ => .bind ih fun _ => .pure _

theorem collect_lifts {late : Value → Late σ (List Value)} {act : Value → Action σ (List Value)}
    (h : ∀ v, Lifts (late v) (act v)) (vs : List Value) :
    Lifts (collect late vs) (collect act vs) := by
  induction vs with
  | nil => exact .pure _
  | cons v rest ih => exact .bind (h v) fun _ => .bind ih fun _ => .pure _

mutual

theorem select_lifts (s : Scope) : ∀ {segment : Segment Filter} (v : Value), segment.Rereads →
    Lifts (select (Late.judge s) segment v : Late σ (List Value)) (select (Expr.judge s) segment v)
  | .step st, v, _ => by
      unfold select
      refine .bind (.lift _) fun _ => ?_
      cases selectStep st v with
      | ok found => exact .pure found
      | error l => exact .lift _
  | .wildcard, v, _ => .pure v.children
  | .slice sl, v, _ => by
      unfold select
      split
      · exact .pure _
      · exact .pure _
  | .filter f, v, h => keep_lifts (h f (by simp [Segment.filters])) s v.children
  | .selection ss, v, h => selectAll_lifts s v h
  | .descent inside, v, h => by
      have hinside : inside.Rereads := h
      exact collect_lifts (fun w => select_lifts s w hinside) v.descendants

theorem selectAll_lifts (s : Scope) : ∀ {segments : List (Segment Filter)} (v : Value),
    (∀ f ∈ Segment.filtersAll segments, f.Rereads) →
    Lifts (selectAll (Late.judge s) segments v : Late σ (List Value))
      (selectAll (Expr.judge s) segments v)
  | [], _, _ => .pure _
  | first :: rest, v, h => by
      simp only [Segment.filtersAll, List.forall_mem_append] at h
      refine .bind (select_lifts s v h.1) fun _ => ?_
      exact .bind (selectAll_lifts s v h.2) fun _ => .pure _

end

theorem query_lifts (s : Scope) {segments : List (Segment Filter)} (root : Value)
    (h : ∀ segment ∈ segments, segment.Rereads) :
    Lifts (Query.run (Late.judge s) segments root : Late σ (List Value))
      (Query.run (Expr.judge s) segments root) := by
  unfold Query.run
  generalize [root] = found
  induction segments generalizing found with
  | nil => exact .pure found
  | cons segment rest ih =>
      obtain ⟨hsegment, hrest⟩ := List.forall_mem_cons.mp h
      exact .bind (collect_lifts (fun v => select_lifts s v hsegment) found) fun next =>
        ih hrest next

end Filters

end Late

/-! ## Expressions -/

namespace Expr

open Late

variable {host : Host σ}

theorem compare_lifts (op : Comparison) (v w : Value) :
    Lifts (Late.compare (.compare op) v w : Late σ Value) (.perform (.compare op v w)) := .lift _

mutual

/-- Late evaluation of the term of an expression all of whose parts are checked
is its evaluation. -/
theorem eval_lifts : ∀ {bound : List String} (e : Expr) (s : Scope),
    (∀ p ∈ parts bound e, p.expr.IsChecked) → Lifts (Term.eval host e.term s) (eval host e s)
  | _, .literal v, _, _ => .pure v
  | _, .get path, s, h => read_lifts (h _ (self_mem_parts _ _)) s
  | _, .jsonPath text segments, s, h => by
      have hparse : Query.parse text = .ok segments := h _ (self_mem_parts _ _)
      have hlate : (parseQuery text : Late σ _) = pure segments := by
        unfold parseQuery
        rw [hparse]
      show Lifts (do
        let segments ← parseQuery text
        let found ← Query.run (Late.judge s) segments (.obj s.toFields)
        pure (Value.arr found)) _
      rw [hlate, pure_bind]
      exact .bind (query_lifts s _ (Query.parse_rereads hparse)) fun _ => .pure _
  | _, .branch condition yes no, s, h => by
      simp only [parts, List.forall_mem_cons, List.forall_mem_append] at h
      obtain ⟨-, ⟨hcondition, hyes⟩, hno⟩ := h
      refine .bind (eval_lifts condition s hcondition) fun v => ?_
      split
      · exact eval_lifts yes s hyes
      · exact evalOption_lifts no s hno
  | _, .switch subject cases fallback, s, h => by
      simp only [parts, List.forall_mem_cons, List.forall_mem_append] at h
      obtain ⟨-, ⟨hsubject, hcases⟩, hfallback⟩ := h
      refine .bind (eval_lifts subject s hsubject) fun v => ?_
      exact evalCases_lifts v (evalOption_lifts fallback s hfallback) cases s hcases
  | _, .map items element body, s, h => by
      simp only [parts, List.forall_mem_cons, List.forall_mem_append] at h
      obtain ⟨-, hitems, hbody⟩ := h
      refine .bind (eval_lifts items s hitems) fun v => .bind (.lift _) fun xs => ?_
      exact .bind (.mapEach (fun x => eval_lifts body _ hbody) xs) fun _ => .pure _
  | _, .filter items element predicate, s, h => by
      simp only [parts, List.forall_mem_cons, List.forall_mem_append] at h
      obtain ⟨-, hitems, hpredicate⟩ := h
      refine .bind (eval_lifts items s hitems) fun v => .bind (.lift _) fun xs => ?_
      exact .bind (.keepEach (fun x => eval_lifts predicate _ hpredicate) xs) fun _ => .pure _
  | _, .reduce items element accumulator initial body, s, h => by
      simp only [parts, List.forall_mem_cons, List.forall_mem_append] at h
      obtain ⟨-, ⟨hitems, hinitial⟩, hbody⟩ := h
      refine .bind (eval_lifts items s hitems) fun v => .bind (.lift _) fun xs => ?_
      refine .bind (eval_lifts initial s hinitial) fun start => ?_
      exact .foldEach (fun acc x => eval_lifts body _ hbody) xs start
  | _, .dbQuery _ criteria _, s, h => by
      simp only [parts, List.forall_mem_cons] at h
      refine .bind (.lift _) fun db => ?_
      refine .bind (evalCriteria_lifts criteria s h.2) fun _ => ?_
      exact .bind (.lift _) fun _ => .lift _
  | _, .dbInsert _ document, s, h => by
      simp only [parts, List.forall_mem_cons] at h
      refine .bind (.lift _) fun db => .bind (evalPayload_lifts document s h.2) fun v => ?_
      exact .bind (.lift _) fun _ => .lift _
  | _, .dbUpdate _ criteria update, s, h => by
      simp only [parts, List.forall_mem_cons, List.forall_mem_append] at h
      obtain ⟨-, hcriteria, hupdate⟩ := h
      refine .bind (.lift _) fun db => .bind (evalPayload_lifts criteria s hcriteria) fun v => ?_
      refine .bind (.lift _) fun _ => .bind (evalPayload_lifts update s hupdate) fun w => ?_
      exact .bind (.lift _) fun _ => .lift _
  | _, .dbDelete _ criteria, s, h => by
      simp only [parts, List.forall_mem_cons] at h
      refine .bind (.lift _) fun db => .bind (evalPayload_lifts criteria s h.2) fun v => ?_
      exact .bind (.lift _) fun _ => .lift _
  | _, .merge objects, s, h => by
      simp only [parts, List.forall_mem_cons] at h
      exact .bind (evalMerge_lifts 0 [] objects s h.2) fun _ => .pure _
  | _, .present value, s, h => by
      simp only [parts, List.forall_mem_cons] at h
      exact .recover (.bind (eval_lifts value s h.2) fun _ => .pure _)
  | _, .now, _, _ => .bind (.lift _) fun _ => .lift _
  | _, .renderString template none, s, h =>
      .bind (.lift _) fun _ => render_lifts (h _ (self_mem_parts _ _)) rfl
  | _, .renderString template (some p), s, h => by
      have htemplate : template.Rereads := h _ (self_mem_parts _ _)
      simp only [parts, List.forall_mem_cons, partsPayloadOption] at h
      refine .bind (evalPayload_lifts p s h.2) fun v => .bind (.lift _) fun fields => ?_
      exact .bind (.lift _) fun _ => render_lifts htemplate rfl
  | _, .earlyReturn value, s, h => by
      simp only [parts, List.forall_mem_cons] at h
      exact .bind (evalPayload_lifts value s h.2) fun v => .lift _
  | _, .validate value schema strict onFail, s, h => by
      simp only [parts, List.forall_mem_cons, List.forall_mem_append] at h
      obtain ⟨-, hvalue, honFail⟩ := h
      refine .bind (eval_lifts value s hvalue) fun v => .bind (.lift _) fun fields => ?_
      refine .bind (.lift _) fun details => ?_
      split
      · exact .pure _
      · exact evalReaction_lifts strict details onFail s honFail
  | _, .compare op left right, s, h => by
      simp only [parts, List.forall_mem_cons, List.forall_mem_append] at h
      obtain ⟨-, hleft, hright⟩ := h
      refine .bind (eval_lifts left s hleft) fun v => ?_
      exact .bind (eval_lifts right s hright) fun w => compare_lifts op v w
  | _, .and operands, s, h => by
      simp only [parts, List.forall_mem_cons] at h
      exact .conjoin (evalAll_lift operands s h.2) _
  | _, .or operands, s, h => by
      simp only [parts, List.forall_mem_cons] at h
      exact .disjoin (evalAll_lift operands s h.2) _
  | _, .not operand, s, h => by
      simp only [parts, List.forall_mem_cons] at h
      exact .bind (eval_lifts operand s h.2) fun _ => .pure _
  | _, .variadic op first second rest, s, h => by
      simp only [parts, List.forall_mem_cons, List.forall_mem_append] at h
      obtain ⟨-, ⟨hfirst, hsecond⟩, hrest⟩ := h
      rw [term, Term.eval_arithmetic, Term.evalNumbers_cons, Term.evalNumbers_cons]
      simp only [bind_assoc, pure_bind]
      refine .bind (eval_lifts first s hfirst) fun v => .bind (.lift _) fun x => ?_
      refine .bind (eval_lifts second s hsecond) fun w => .bind (.lift _) fun y => ?_
      exact .bind (evalNumbers_lifts _ 2 rest s hrest) fun zs => .lift _
  | _, .dyadic op left right, s, h => by
      simp only [parts, List.forall_mem_cons, List.forall_mem_append] at h
      obtain ⟨-, hleft, hright⟩ := h
      rw [term, Term.eval_arithmetic, Term.evalNumbers_cons, Term.evalNumbers_cons]
      simp only [bind_assoc, pure_bind]
      refine .bind (eval_lifts left s hleft) fun v => .bind (.lift _) fun x => ?_
      refine .bind (eval_lifts right s hright) fun w => .bind (.lift _) fun y => ?_
      exact .lift _

theorem evalOption_lifts : ∀ {bound : List String} (o : Option Expr) (s : Scope),
    (∀ p ∈ partsOption bound o, p.expr.IsChecked) →
    Lifts (Term.evalOption host (termOption o) s) (evalOption host o s)
  | _, none, _, _ => .pure _
  | _, some e, s, h => eval_lifts e s h

theorem evalReaction_lifts (strict : Option Bool) (details : List String) :
    ∀ {bound : List String} (o : Option Expr) (s : Scope),
    (∀ p ∈ partsOption ("errors" :: bound) o, p.expr.IsChecked) →
    Lifts (Term.evalReaction host strict details (termOption o) s)
      (evalReaction host strict details o s)
  | _, some e, s, h => eval_lifts e _ h
  | _, none, s, h => by
      show Lifts (if strict.getD host.settings.strictValidation then
        Late.lift (.fail (.schemaViolation details)) else pure (Value.bool false))
        (if strict.getD host.settings.strictValidation then
          .fail (.schemaViolation details) else pure (Value.bool false))
      split
      · exact .lift _
      · exact .pure _

theorem evalCases_lifts {late : Late σ Value} {fallback : Action σ Value} (v : Value)
    (hfallback : Lifts late fallback) : ∀ {bound : List String} (cases : List (Case Expr))
    (s : Scope), (∀ p ∈ partsCases bound cases, p.expr.IsChecked) →
    Lifts (Term.evalCases host v late (termCases cases) s) (evalCases host v fallback cases s)
  | _, [], _, _ => hfallback
  | _, ⟨subject, result⟩ :: rest, s, h => by
      simp only [partsCases, List.forall_mem_append] at h
      show Lifts (if v.equal subject then Term.eval host result.term s
        else Term.evalCases host v late (termCases rest) s)
        (if v.equal subject then eval host result s else evalCases host v fallback rest s)
      split
      · exact eval_lifts result s h.1
      · exact evalCases_lifts v hfallback rest s h.2

theorem evalAll_lift : ∀ {bound : List String} (es : List Expr) (s : Scope),
    (∀ p ∈ partsAll bound es, p.expr.IsChecked) →
    Term.evalAll host (termAll es) s = (evalAll host es s).map Late.lift
  | _, [], _, _ => rfl
  | _, e :: rest, s, h => by
      simp only [partsAll, List.forall_mem_append] at h
      show Term.eval host e.term s :: Term.evalAll host (termAll rest) s = _
      rw [show Term.eval host e.term s = _ from eval_lifts e s h.1, evalAll_lift rest s h.2]
      rfl

theorem evalNumbers_lifts (op : Operator) (position : Nat) : ∀ {bound : List String}
    (es : List Expr) (s : Scope), (∀ p ∈ partsAll bound es, p.expr.IsChecked) →
    Lifts (Term.evalNumbers host op position (termAll es) s)
      (requireNumbers op position (evalAll host es s))
  | _, [], _, _ => .pure _
  | _, e :: rest, s, h => by
      simp only [partsAll, List.forall_mem_append] at h
      refine .bind (eval_lifts e s h.1) fun v => .bind (.lift _) fun n => ?_
      exact .bind (evalNumbers_lifts op (position + 1) rest s h.2) fun _ => .pure _

theorem evalFields_lifts : ∀ {bound : List String} (fs : List (String × Expr)) (s : Scope),
    (∀ p ∈ partsFields bound fs, p.expr.IsChecked) →
    Lifts (Term.evalFields host (termFields fs) s) (evalFields host fs s)
  | _, [], _, _ => .pure _
  | _, (_, e) :: rest, s, h => by
      simp only [partsFields, List.forall_mem_append] at h
      refine .bind (eval_lifts e s h.1) fun _ => ?_
      exact .bind (evalFields_lifts rest s h.2) fun _ => .pure _

theorem evalPayload_lifts : ∀ {bound : List String} (p : Payload Expr) (s : Scope),
    (∀ q ∈ partsPayload bound p, q.expr.IsChecked) →
    Lifts (Term.evalPayload host (termPayload p) s) (evalPayload host p s)
  | _, .expr e, s, h => eval_lifts e s h
  | _, .fields fs, s, h => .bind (evalFields_lifts fs s h) fun _ => .pure _

theorem evalMerge_lifts (position : Nat) (merged : Fields Value) : ∀ {bound : List String}
    (ps : List (Payload Expr)) (s : Scope), (∀ q ∈ partsPayloads bound ps, q.expr.IsChecked) →
    Lifts (Term.evalMerge host position merged (termPayloads ps) s)
      (evalMerge host position merged ps s)
  | _, [], _, _ => .pure _
  | _, p :: rest, s, h => by
      simp only [partsPayloads, List.forall_mem_append] at h
      refine .bind (evalPayload_lifts p s h.1) fun v => .bind (.lift _) fun fields => ?_
      exact evalMerge_lifts (position + 1) (merged.overlay fields) rest s h.2

theorem evalCriteria_lifts : ∀ {bound : List String} (o : Option (Payload Expr)) (s : Scope),
    (∀ q ∈ partsPayloadOption bound o, q.expr.IsChecked) →
    Lifts (Term.evalCriteria host (termPayloadOption o) s) (evalCriteria host o s)
  | _, none, _, _ => .pure _
  | _, some p, s, h => .bind (evalPayload_lifts p s h) fun _ => .lift _

end

/-- Whatever expression is read, all nodes of its term pass their checks, and
its late evaluation ends in no defect but is its evaluation, whatever the
scope, the host and the world. -/
theorem read_complete {v : Value} {e : Expr} (h : read v = .done e) :
    (∀ t ∈ e.term.nodes, t.IsChecked) ∧
      ∀ {σ : Type} (host : Host σ) (s : Scope) (w : World σ),
        (∀ d, ((Term.eval host e.term s).run.run.run w).1 ≠ .ok (.error d)) ∧
          (Term.eval host e.term s).run.run.run w =
            (((eval host e s).run.run w).1.map .ok, ((eval host e s).run.run w).2) := by
  refine ⟨nodes_isChecked h, fun {σ} host s w => ?_⟩
  have hrun : (Term.eval host e.term s).run.run.run w =
      (((eval host e s).run.run w).1.map .ok, ((eval host e s).run.run w).2) := by
    rw [show Term.eval host e.term s = _ from eval_lifts e s (read_yields v e h []), run_lift]
  refine ⟨fun d hd => ?_, hrun⟩
  rw [hrun] at hd
  cases hend : ((eval host e s).run.run w).1 <;> rw [hend] at hd <;> cases hd

/-- What is left of a total after one. -/
def difference : Value := .obj [("$subtract", .arr [.obj [("$get", .str "item.total")], .int 1])]

def differenceExpr : Expr :=
  .dyadic .subtract (.get ⟨"item.total", "item", [.field "total"]⟩) (.literal (.int 1))

theorem parse_total :
    DotPath.parse "item.total" = .ok ⟨"item.total", "item", [.field "total"]⟩ := by
  cbv

theorem read_difference : read difference = .done differenceExpr := by
  have hleft := read_get parse_total
  have hright : read (.int 1) = .done (.literal (.int 1)) := read_literal rfl
  rw [difference, read_eq rfl rfl rfl]
  simp [ofArguments, Arguments.required, Arguments.find?, Arguments.get?, Arguments.single,
    Arguments.closed, Arguments.present?, Arguments.leftover, readTwo, readOperands, readList,
    Reading.list, Reading.items, Value.items?, Smaller.widen, Reading.map, Reading.andThen,
    Reading.under, Functor.map, SeqLeft.seqLeft, Reading.apply, hleft, hright, differenceExpr]

theorem read_complete_difference :
    read difference = .done differenceExpr ∧ (∀ t ∈ differenceExpr.term.nodes, t.IsChecked) ∧
      ∀ {σ : Type} (host : Host σ) (s : Scope) (w : World σ),
        (∀ d, ((Term.eval host differenceExpr.term s).run.run.run w).1 ≠ .ok (.error d)) ∧
          (Term.eval host differenceExpr.term s).run.run.run w =
            (((eval host differenceExpr s).run.run w).1.map .ok,
              ((eval host differenceExpr s).run.run w).2) :=
  ⟨read_difference, read_complete read_difference⟩

end Expr

end Conduit
