import Conduit.Proofs.Eval.Alike
import Conduit.Proofs.Expr.Parts
import Conduit.Proofs.Query.Reader
import Conduit.Proofs.Scope

/-!
# Evaluations in related scopes

An expression looks at its scope in three of its parts only: where it reads a
path, renders a template without variables of its own, or runs a query. If
these come to the same in scopes that are related, and inner scopes with the
same bindings are related again, then the whole expression evaluates alike in
related scopes.

What the relation is, is left open. It may be that the scopes agree on some
names, or that they are one and the same.
-/

namespace Conduit

open Action

variable {σ : Type} {shown : Event → Bool} {host : Host σ} {s t : Scope}

/-! ## Queries -/

namespace Query

/-- Whatever the candidate is, the paths in the filters lead to the same from
both scopes. -/
def ReadAlike (filters : List Filter) (s t : Scope) : Prop :=
  ∀ f ∈ filters, ∀ p ∈ f.paths, ∀ candidate,
    (s.child [("@", candidate)]).resolve p = (t.child [("@", candidate)]).resolve p

end Query

namespace Expr

open Query (ReadAlike)

theorem read_alike {p : DotPath} (h : s.resolve p = t.resolve p) :
    Alike shown (.perform (.read p s) : Action σ Value) (.perform (.read p t)) :=
  .perform h

mutual

theorem evalFilter_alike : ∀ (f : Query.Filter) {s t : Scope},
    (∀ p ∈ f.paths, s.resolve p = t.resolve p) →
    Alike shown (evalFilter f s : Action σ Value) (evalFilter f t)
  | .literal v, _, _, _ => .pure v
  | .path p, s, t, h => read_alike (h p List.mem_cons_self)
  | .present p, s, t, h => isPresent_alike (read_alike (h p List.mem_cons_self))
  | .compare op left right, s, t, h => by
      obtain ⟨hleft, hright⟩ := List.forall_mem_append.mp h
      refine .bind (evalFilter_alike left hleft) fun v => ?_
      exact .bind (evalFilter_alike right hright) fun w => .perform rfl
  | .not operand, _, _, h => .bind (evalFilter_alike operand h) fun _ => .pure _
  | .and operands, _, _, h => .conjoin (evalFilters_alike operands h) _
  | .or operands, _, _, h => .disjoin (evalFilters_alike operands h) _

theorem evalFilters_alike : ∀ (fs : List Query.Filter) {s t : Scope},
    (∀ p ∈ Query.Filter.pathsAll fs, s.resolve p = t.resolve p) →
    List.Forall₂ (Alike shown) (evalFilters fs s : List (Action σ Value)) (evalFilters fs t)
  | [], _, _, _ => .nil
  | f :: rest, _, _, h => by
      obtain ⟨hf, hrest⟩ := List.forall_mem_append.mp h
      exact .cons (evalFilter_alike f hf) (evalFilters_alike rest hrest)

end

theorem keep_alike {f : Query.Filter} (h : ReadAlike [f] s t) (vs : List Value) :
    Alike shown (Query.keep (judge s) f vs : Action σ (List Value))
      (Query.keep (judge t) f vs) := by
  induction vs with
  | nil => exact .pure _
  | cons v rest ih =>
      have hvalue : Alike shown (evalFilter f (s.child [("@", v)]) : Action σ Value)
          (evalFilter f (t.child [("@", v)])) :=
        evalFilter_alike f fun p hp => h f List.mem_cons_self p hp v
      refine .bind (.recover (.inFilter (.bind hvalue fun _ => .pure _)) _ _) fun _ => ?_
      exact .bind ih fun _ => .pure _

theorem collect_alike {f g : Value → Action σ (List Value)} (h : ∀ v, Alike shown (f v) (g v))
    (vs : List Value) : Alike shown (Query.collect f vs) (Query.collect g vs) := by
  induction vs with
  | nil => exact .pure _
  | cons v rest ih => exact .bind (h v) fun _ => .bind ih fun _ => .pure _

/-- A step of a query is the same step wherever the query was begun. -/
theorem selectStep_alike (st : Step) {v w : Value}
    (h : Query.selectStep st v = Query.selectStep st w) :
    Alike shown (Query.select (judge s) (.step st) v : Action σ (List Value))
      (Query.select (judge t) (.step st) w) := by
  refine .bind (.note _ _) fun _ => ?_
  rw [h]
  cases Query.selectStep st w with
  | ok found => exact .pure found
  | error l => exact .fail _

mutual

theorem select_alike : ∀ (segment : Segment Query.Filter) (v : Value),
    ReadAlike segment.filters s t →
    Alike shown (Query.select (judge s) segment v : Action σ (List Value))
      (Query.select (judge t) segment v)
  | .step st, v, _ => selectStep_alike st rfl
  | .wildcard, v, _ => .pure v.children
  | .slice sl, v, _ => by
      unfold Query.select
      split
      · exact .pure _
      · exact .pure _
  | .filter f, v, h => keep_alike h v.children
  | .selection selectors, v, h => selectAll_alike selectors v h
  | .descent inner, v, h => collect_alike (fun w => select_alike inner w h) v.descendants

theorem selectAll_alike : ∀ (segments : List (Segment Query.Filter)) (v : Value),
    ReadAlike (Segment.filtersAll segments) s t →
    Alike shown (Query.selectAll (judge s) segments v : Action σ (List Value))
      (Query.selectAll (judge t) segments v)
  | [], _, _ => .pure _
  | segment :: rest, v, h => by
      obtain ⟨hsegment, hrest⟩ := List.forall_mem_append.mp h
      refine .bind (select_alike segment v hsegment) fun _ => ?_
      exact .bind (selectAll_alike rest v hrest) fun _ => .pure _

end

theorem runFrom_alike {segments : List (Segment Query.Filter)}
    (h : ReadAlike (Segment.filtersAll segments) s t) (found : List Value) :
    Alike shown (Query.runFrom (judge s) segments found : Action σ (List Value))
      (Query.runFrom (judge t) segments found) := by
  induction segments generalizing found with
  | nil => exact .pure found
  | cons segment rest ih =>
      obtain ⟨hsegment, hrest⟩ := List.forall_mem_append.mp h
      refine .bind (collect_alike (fun v => select_alike segment v hsegment) found) fun next => ?_
      exact ih hrest next

end Expr

/-! ## Expressions -/

/-- A relation of scopes at a place where some names are bound. Inner scopes
with the same bindings are related again. -/
structure ScopeRelation where
  holds : List String → Scope → Scope → Prop
  child : ∀ {bound s t}, holds bound s t → ∀ bindings : Fields Value,
    holds (bindings.names ++ bound) (s.child bindings) (t.child bindings)

namespace ScopeRelation

/-- Whether a part comes to the same in related scopes, its operands left
aside. -/
def Covers (r : ScopeRelation) : Expr.Part → Prop
  | ⟨bound, .get path⟩ => ∀ {s t}, r.holds bound s t → s.resolve path = t.resolve path
  | ⟨bound, .renderString template none⟩ => ∀ {s t}, r.holds bound s t →
    ∀ engine : Engine, template.render engine s.toFields = template.render engine t.toFields
  | ⟨bound, .jsonPath _ segments⟩ => ∀ {s t}, r.holds bound s t →
    ∀ {σ shown}, Alike shown
      (Query.run (Expr.judge s) segments (.obj s.toFields) : Action σ (List Value))
      (Query.run (Expr.judge t) segments (.obj t.toFields))
  | _ => True

end ScopeRelation

namespace Expr

variable {r : ScopeRelation}

mutual

/-- In related scopes an expression evaluates alike, if each of its parts that
looks at its scope does. -/
theorem eval_alike : ∀ {bound : List String} (e : Expr) {s t : Scope},
    (∀ p ∈ parts bound e, r.Covers p) → r.holds bound s t →
    Alike shown (eval host e s) (eval host e t)
  | _, .literal v, _, _, _, _ => .pure v
  | _, .get path, s, t, h, hst => read_alike (h _ (self_mem_parts _ _) hst)
  | _, .jsonPath _ segments, s, t, h, hst => .bind (h _ (self_mem_parts _ _) hst) fun _ => .pure _
  | _, .branch condition yes no, s, t, h, hst => by
      simp only [parts, List.forall_mem_cons, List.forall_mem_append] at h
      obtain ⟨-, ⟨hcondition, hyes⟩, hno⟩ := h
      refine .bind (eval_alike condition hcondition hst) fun v => ?_
      split
      · exact eval_alike yes hyes hst
      · exact evalOption_alike no hno hst
  | _, .switch subject cases fallback, s, t, h, hst => by
      simp only [parts, List.forall_mem_cons, List.forall_mem_append] at h
      obtain ⟨-, ⟨hsubject, hcases⟩, hfallback⟩ := h
      refine .bind (eval_alike subject hsubject hst) fun v => ?_
      exact evalCases_alike v (evalOption_alike fallback hfallback hst) cases hcases hst
  | _, .map items element body, s, t, h, hst => by
      simp only [parts, List.forall_mem_cons, List.forall_mem_append] at h
      obtain ⟨-, hitems, hbody⟩ := h
      refine .bind (eval_alike items hitems hst) fun v => ?_
      refine .bind (requireItems_alike .map v) fun xs => ?_
      refine .bind (.mapEach (fun x => ?_) xs) fun _ => .pure _
      exact eval_alike body hbody (r.child hst [(element, x)])
  | _, .filter items element predicate, s, t, h, hst => by
      simp only [parts, List.forall_mem_cons, List.forall_mem_append] at h
      obtain ⟨-, hitems, hpredicate⟩ := h
      refine .bind (eval_alike items hitems hst) fun v => ?_
      refine .bind (requireItems_alike .filter v) fun xs => ?_
      refine .bind (.keepEach (fun x => ?_) xs) fun _ => .pure _
      exact eval_alike predicate hpredicate (r.child hst [(element, x)])
  | _, .reduce items element accumulator initial body, s, t, h, hst => by
      simp only [parts, List.forall_mem_cons, List.forall_mem_append] at h
      obtain ⟨-, ⟨hitems, hinitial⟩, hbody⟩ := h
      refine .bind (eval_alike items hitems hst) fun v => ?_
      refine .bind (requireItems_alike .reduce v) fun xs => ?_
      refine .bind (eval_alike initial hinitial hst) fun start => ?_
      refine .foldEach (fun acc x => ?_) xs start
      exact eval_alike body hbody (r.child hst [(element, x), (accumulator, acc)])
  | _, .dbQuery _ criteria _, s, t, h, hst => by
      simp only [parts, List.forall_mem_cons] at h
      refine .bind (requireDatabase_alike host .dbQuery) fun db => ?_
      refine .bind (evalCriteria_alike criteria h.2 hst) fun _ => ?_
      exact .bind (.ask db _) fun _ => .perform rfl
  | _, .dbInsert _ document, s, t, h, hst => by
      simp only [parts, List.forall_mem_cons] at h
      refine .bind (requireDatabase_alike host .dbInsert) fun db => ?_
      refine .bind (evalPayload_alike document h.2 hst) fun v => ?_
      exact .bind (requireObject_alike _ v) fun _ => .ask db _
  | _, .dbUpdate _ criteria update, s, t, h, hst => by
      simp only [parts, List.forall_mem_cons, List.forall_mem_append] at h
      obtain ⟨-, hcriteria, hupdate⟩ := h
      refine .bind (requireDatabase_alike host .dbUpdate) fun db => ?_
      refine .bind (evalPayload_alike criteria hcriteria hst) fun v => ?_
      refine .bind (requireObject_alike _ v) fun _ => ?_
      refine .bind (evalPayload_alike update hupdate hst) fun w => ?_
      exact .bind (requireObject_alike _ w) fun _ => .ask db _
  | _, .dbDelete _ criteria, s, t, h, hst => by
      simp only [parts, List.forall_mem_cons] at h
      refine .bind (requireDatabase_alike host .dbDelete) fun db => ?_
      refine .bind (evalPayload_alike criteria h.2 hst) fun v => ?_
      exact .bind (requireObject_alike _ v) fun _ => .ask db _
  | _, .merge objects, s, t, h, hst => by
      simp only [parts, List.forall_mem_cons] at h
      exact .bind (evalMerge_alike 0 [] objects h.2 hst) fun _ => .pure _
  | _, .present value, s, t, h, hst => by
      simp only [parts, List.forall_mem_cons] at h
      exact isPresent_alike (eval_alike value h.2 hst)
  | _, .now, _, _, _, _ => .bind (.readClock host) fun _ => .perform rfl
  | _, .renderString _ none, s, t, h, hst => by
      have hrender := h _ (self_mem_parts _ _) hst
      refine .bind (.takeEngine host) fun engine => ?_
      exact .perform (congrArg (Except.map Value.str) (hrender engine))
  | _, .renderString _ (some p), s, t, h, hst => by
      simp only [parts, List.forall_mem_cons, partsPayloadOption] at h
      refine .bind (evalPayload_alike p h.2 hst) fun v => ?_
      refine .bind (requireObject_alike _ v) fun _ => ?_
      exact .bind (.takeEngine host) fun _ => .perform rfl
  | _, .earlyReturn value, s, t, h, hst => by
      simp only [parts, List.forall_mem_cons] at h
      exact .bind (evalPayload_alike value h.2 hst) fun v => .throw (.returned v)
  | _, .validate value schema strict onFail, s, t, h, hst => by
      simp only [parts, List.forall_mem_cons, List.forall_mem_append] at h
      obtain ⟨-, hvalue, honFail⟩ := h
      refine .bind (eval_alike value hvalue hst) fun v => ?_
      refine .bind (requireSchema_alike host schema) fun fields => ?_
      refine .bind (.ofExcept (Schema.violations fields v)) fun details => ?_
      split
      · exact .pure _
      · exact evalReaction_alike strict details onFail honFail hst
  | _, .compare op left right, s, t, h, hst => by
      simp only [parts, List.forall_mem_cons, List.forall_mem_append] at h
      obtain ⟨-, hleft, hright⟩ := h
      refine .bind (eval_alike left hleft hst) fun v => ?_
      exact .bind (eval_alike right hright hst) fun w => .perform rfl
  | _, .and operands, s, t, h, hst => by
      simp only [parts, List.forall_mem_cons] at h
      exact .conjoin (evalAll_alike operands h.2 hst) _
  | _, .or operands, s, t, h, hst => by
      simp only [parts, List.forall_mem_cons] at h
      exact .disjoin (evalAll_alike operands h.2 hst) _
  | _, .not operand, s, t, h, hst => by
      simp only [parts, List.forall_mem_cons] at h
      exact .bind (eval_alike operand h.2 hst) fun _ => .pure _
  | _, .variadic op first second rest, s, t, h, hst => by
      simp only [parts, List.forall_mem_cons, List.forall_mem_append] at h
      obtain ⟨-, ⟨hfirst, hsecond⟩, hrest⟩ := h
      refine .bind (eval_alike first hfirst hst) fun v => ?_
      refine .bind (requireNumber_alike (.variadic op) 0 v) fun x => ?_
      refine .bind (eval_alike second hsecond hst) fun w => ?_
      refine .bind (requireNumber_alike (.variadic op) 1 w) fun y => ?_
      refine .bind (requireNumbers_alike (evalAll_alike rest hrest hst) 2) fun zs => ?_
      exact .perform rfl
  | _, .dyadic op left right, s, t, h, hst => by
      simp only [parts, List.forall_mem_cons, List.forall_mem_append] at h
      obtain ⟨-, hleft, hright⟩ := h
      refine .bind (eval_alike left hleft hst) fun v => ?_
      refine .bind (requireNumber_alike (.dyadic op) 0 v) fun x => ?_
      refine .bind (eval_alike right hright hst) fun w => ?_
      refine .bind (requireNumber_alike (.dyadic op) 1 w) fun y => ?_
      exact .perform rfl

theorem evalOption_alike : ∀ {bound : List String} (o : Option Expr) {s t : Scope},
    (∀ p ∈ partsOption bound o, r.Covers p) → r.holds bound s t →
    Alike shown (evalOption host o s) (evalOption host o t)
  | _, none, _, _, _, _ => .pure _
  | _, some e, _, _, h, hst => eval_alike e h hst

theorem evalReaction_alike (strict : Option Bool) (details : List String) :
    ∀ {bound : List String} (o : Option Expr) {s t : Scope},
    (∀ p ∈ partsOption ("errors" :: bound) o, r.Covers p) → r.holds bound s t →
    Alike shown (evalReaction host strict details o s) (evalReaction host strict details o t)
  | _, some e, _, _, h, hst => eval_alike e h (r.child hst [("errors", .arr (details.map .str))])
  | _, none, s, t, h, hst => by
      show Alike shown (if strict.getD host.settings.strictValidation then
        .fail (.schemaViolation details) else pure (Value.bool false))
        (if strict.getD host.settings.strictValidation then
        .fail (.schemaViolation details) else pure (Value.bool false))
      split
      · exact .fail _
      · exact .pure _

theorem evalCases_alike {x y : Action σ Value} (v : Value) (hxy : Alike shown x y) :
    ∀ {bound : List String} (cases : List (Case Expr)) {s t : Scope},
    (∀ p ∈ partsCases bound cases, r.Covers p) → r.holds bound s t →
    Alike shown (evalCases host v x cases s) (evalCases host v y cases t)
  | _, [], _, _, _, _ => hxy
  | _, ⟨subject, result⟩ :: rest, s, t, h, hst => by
      simp only [partsCases, List.forall_mem_append] at h
      show Alike shown (if v.equal subject then eval host result s
        else evalCases host v x rest s) (if v.equal subject then eval host result t
        else evalCases host v y rest t)
      split
      · exact eval_alike result h.1 hst
      · exact evalCases_alike v hxy rest h.2 hst

theorem evalAll_alike : ∀ {bound : List String} (es : List Expr) {s t : Scope},
    (∀ p ∈ partsAll bound es, r.Covers p) → r.holds bound s t →
    List.Forall₂ (Alike shown) (evalAll host es s) (evalAll host es t)
  | _, [], _, _, _, _ => .nil
  | _, e :: rest, s, t, h, hst => by
      simp only [partsAll, List.forall_mem_append] at h
      exact .cons (eval_alike e h.1 hst) (evalAll_alike rest h.2 hst)

theorem evalFields_alike : ∀ {bound : List String} (fs : List (String × Expr)) {s t : Scope},
    (∀ p ∈ partsFields bound fs, r.Covers p) → r.holds bound s t →
    Alike shown (evalFields host fs s) (evalFields host fs t)
  | _, [], _, _, _, _ => .pure _
  | _, (_, e) :: rest, s, t, h, hst => by
      simp only [partsFields, List.forall_mem_append] at h
      refine .bind (eval_alike e h.1 hst) fun _ => ?_
      exact .bind (evalFields_alike rest h.2 hst) fun _ => .pure _

theorem evalPayload_alike : ∀ {bound : List String} (p : Payload Expr) {s t : Scope},
    (∀ q ∈ partsPayload bound p, r.Covers q) → r.holds bound s t →
    Alike shown (evalPayload host p s) (evalPayload host p t)
  | _, .expr e, _, _, h, hst => eval_alike e h hst
  | _, .fields fs, _, _, h, hst => .bind (evalFields_alike fs h hst) fun _ => .pure _

theorem evalMerge_alike (position : Nat) (merged : Fields Value) :
    ∀ {bound : List String} (ps : List (Payload Expr)) {s t : Scope},
    (∀ q ∈ partsPayloads bound ps, r.Covers q) → r.holds bound s t →
    Alike shown (evalMerge host position merged ps s) (evalMerge host position merged ps t)
  | _, [], _, _, _, _ => .pure _
  | _, p :: rest, s, t, h, hst => by
      simp only [partsPayloads, List.forall_mem_append] at h
      refine .bind (evalPayload_alike p h.1 hst) fun v => ?_
      refine .bind (requireObject_alike _ v) fun fields => ?_
      exact evalMerge_alike (position + 1) (merged.overlay fields) rest h.2 hst

theorem evalCriteria_alike : ∀ {bound : List String} (o : Option (Payload Expr)) {s t : Scope},
    (∀ q ∈ partsPayloadOption bound o, r.Covers q) → r.holds bound s t →
    Alike shown (evalCriteria host o s) (evalCriteria host o t)
  | _, none, _, _, _, _ => .pure _
  | _, some p, _, _, h, hst =>
      .bind (evalPayload_alike p h hst) fun v => requireObject_alike _ v

end

end Expr

/-! ## One scope -/

/-- Being the same scope. -/
def ScopeRelation.equal : ScopeRelation where
  holds _ s t := s = t
  child h _ := by rw [h]

theorem ScopeRelation.equal_covers (p : Expr.Part) : ScopeRelation.equal.Covers p := by
  obtain ⟨bound, e⟩ := p
  cases e with
  | get path =>
      rintro s t rfl
      rfl
  | renderString template vars =>
      cases vars with
      | some p => trivial
      | none =>
          rintro s t rfl engine
          rfl
  | jsonPath text segments =>
      rintro s t rfl σ shown
      exact Expr.runFrom_alike (fun _ _ _ _ _ => rfl) _
  | _ => trivial

/-- Evaluations of one expression in one scope look alike from worlds that
look alike. -/
theorem Expr.eval_alike_self (e : Expr) (s : Scope) :
    Alike shown (eval host e s) (eval host e s) := by
  have hparts : ∀ p ∈ parts [] e, ScopeRelation.equal.Covers p :=
    fun p _ => ScopeRelation.equal_covers p
  have hs : ScopeRelation.equal.holds [] s s := rfl
  exact eval_alike e hparts hs

end Conduit
