import Conduit.Proofs.Eval.Queries
import Conduit.Proofs.Expr.Parts
import Conduit.Proofs.Scope

/-!
# Evaluations keep contracts part by part

Only few parts of an expression look at anything but the values of their
operands: those that read a name, and validations. An evaluation keeps a
contract if these do, each in every scope that binds what its place in the
expression promises. The induction over expressions is done here once; a
claim about evaluations is then a contract and a look at four operators.
-/

namespace Conduit

open Action

variable {σ : Type}

namespace Contract

/-- Whether the filters of queries may read whatever they like. -/
def AllowsFilters (c : Contract) : Prop :=
  ∃ inner : Contract, c.Covers inner ∧ ∀ p s, inner.Permits (.read p s)

/-- Whether the part itself keeps a contract, its operands left aside. -/
def AllowsPart (c : Contract) (host : Host σ) : Expr.Part → Prop
  | ⟨bound, .get path⟩ => ∀ s : Scope, s.Binds bound → c.Permits (.read path s)
  | ⟨bound, .renderString template none⟩ =>
    ∀ (engine : Engine) (s : Scope), s.Binds bound → c.Permits (.renderIn engine template s)
  | ⟨_, .validate _ schema _ _⟩ => Meets c (Expr.requireSchema host schema) ∧
    ∀ fields v, Meets c (.ofExcept (Schema.violations fields v) : Action σ (List String))
  | _ => True

end Contract

namespace Expr

variable {c : Contract} {host : Host σ}

mutual

/-- An evaluation keeps a contract that each part of the expression keeps
in all scopes that bind the names bound at its place. -/
theorem eval_meets (hf : c.AllowsFilters) : ∀ {bound : List String} (e : Expr) (s : Scope),
    (∀ p ∈ parts bound e, c.AllowsPart host p) → s.Binds bound → Meets c (eval host e s)
  | _, .literal v, _, _, _ => .pure v
  | _, .get path, s, h, hs => .perform (h _ (self_mem_parts _ _) s hs)
  | _, .jsonPath _ segments, s, _, _ => by
      obtain ⟨inner, hc, hr⟩ := hf
      exact .bind (query_meets hc hr s segments _) fun _ => .pure _
  | _, .branch condition yes no, s, h, hs => by
      simp only [parts, List.forall_mem_cons, List.forall_mem_append] at h
      obtain ⟨-, ⟨hcondition, hyes⟩, hno⟩ := h
      refine .bind (eval_meets hf condition s hcondition hs) fun v => ?_
      split
      · exact eval_meets hf yes s hyes hs
      · exact evalOption_meets hf no s hno hs
  | _, .switch subject cases fallback, s, h, hs => by
      simp only [parts, List.forall_mem_cons, List.forall_mem_append] at h
      obtain ⟨-, ⟨hsubject, hcases⟩, hfallback⟩ := h
      refine .bind (eval_meets hf subject s hsubject hs) fun v => ?_
      exact evalCases_meets hf v (evalOption_meets hf fallback s hfallback hs) cases s hcases hs
  | _, .map items element body, s, h, hs => by
      simp only [parts, List.forall_mem_cons, List.forall_mem_append] at h
      obtain ⟨-, hitems, hbody⟩ := h
      refine .bind (eval_meets hf items s hitems hs) fun v => ?_
      refine .bind (requireItems_meets .map v) fun xs => ?_
      exact .bind (.mapEach (fun x => eval_meets hf body _ hbody hs.child) xs) fun _ => .pure _
  | _, .filter items element predicate, s, h, hs => by
      simp only [parts, List.forall_mem_cons, List.forall_mem_append] at h
      obtain ⟨-, hitems, hpredicate⟩ := h
      refine .bind (eval_meets hf items s hitems hs) fun v => ?_
      refine .bind (requireItems_meets .filter v) fun xs => ?_
      exact .bind (.keepEach (fun x => eval_meets hf predicate _ hpredicate hs.child) xs)
        fun _ => .pure _
  | _, .reduce items element accumulator initial body, s, h, hs => by
      simp only [parts, List.forall_mem_cons, List.forall_mem_append] at h
      obtain ⟨-, ⟨hitems, hinitial⟩, hbody⟩ := h
      refine .bind (eval_meets hf items s hitems hs) fun v => ?_
      refine .bind (requireItems_meets .reduce v) fun xs => ?_
      refine .bind (eval_meets hf initial s hinitial hs) fun start => ?_
      exact .foldEach (fun acc x => eval_meets hf body _ hbody hs.child) xs start
  | _, .dbQuery _ criteria _, s, h, hs => by
      simp only [parts, List.forall_mem_cons] at h
      refine .bind (requireDatabase_meets host .dbQuery) fun db => ?_
      refine .bind (evalCriteria_meets hf criteria s h.2 hs) fun _ => ?_
      exact .bind (.ask db _) fun _ => .perform (c.closed rfl)
  | _, .dbInsert _ document, s, h, hs => by
      simp only [parts, List.forall_mem_cons] at h
      refine .bind (requireDatabase_meets host .dbInsert) fun db => ?_
      refine .bind (evalPayload_meets hf document s h.2 hs) fun v => ?_
      exact .bind (requireObject_meets _ v) fun _ => .ask db _
  | _, .dbUpdate _ criteria update, s, h, hs => by
      simp only [parts, List.forall_mem_cons, List.forall_mem_append] at h
      obtain ⟨-, hcriteria, hupdate⟩ := h
      refine .bind (requireDatabase_meets host .dbUpdate) fun db => ?_
      refine .bind (evalPayload_meets hf criteria s hcriteria hs) fun v => ?_
      refine .bind (requireObject_meets _ v) fun _ => ?_
      refine .bind (evalPayload_meets hf update s hupdate hs) fun w => ?_
      exact .bind (requireObject_meets _ w) fun _ => .ask db _
  | _, .dbDelete _ criteria, s, h, hs => by
      simp only [parts, List.forall_mem_cons] at h
      refine .bind (requireDatabase_meets host .dbDelete) fun db => ?_
      refine .bind (evalPayload_meets hf criteria s h.2 hs) fun v => ?_
      exact .bind (requireObject_meets _ v) fun _ => .ask db _
  | _, .merge objects, s, h, hs => by
      simp only [parts, List.forall_mem_cons] at h
      exact .bind (evalMerge_meets hf 0 [] objects s h.2 hs) fun _ => .pure _
  | _, .present value, s, h, hs => by
      simp only [parts, List.forall_mem_cons] at h
      exact isPresent_meets (eval_meets hf value s h.2 hs)
  | _, .now, _, _, _ => .bind (.readClock host) fun _ => .perform (c.closed rfl)
  | _, .renderString _ none, s, h, hs =>
      .bind (.takeEngine host) fun engine => .perform (h _ (self_mem_parts _ _) engine s hs)
  | _, .renderString _ (some p), s, h, hs => by
      simp only [parts, List.forall_mem_cons, partsPayloadOption] at h
      refine .bind (evalPayload_meets hf p s h.2 hs) fun v => ?_
      refine .bind (requireObject_meets _ v) fun _ => ?_
      exact .bind (.takeEngine host) fun _ => .perform (c.closed rfl)
  | _, .earlyReturn value, s, h, hs => by
      simp only [parts, List.forall_mem_cons] at h
      exact .bind (evalPayload_meets hf value s h.2 hs) fun v => .returned v
  | _, .validate value schema strict onFail, s, h, hs => by
      simp only [parts, List.forall_mem_cons, List.forall_mem_append] at h
      obtain ⟨⟨hschema, hviolations⟩, hvalue, honFail⟩ := h
      refine .bind (eval_meets hf value s hvalue hs) fun v => .bind hschema fun fields => ?_
      refine .bind (hviolations fields v) fun details => ?_
      split
      · exact .pure _
      · exact evalReaction_meets hf strict details onFail s honFail hs
  | _, .compare op left right, s, h, hs => by
      simp only [parts, List.forall_mem_cons, List.forall_mem_append] at h
      obtain ⟨-, hleft, hright⟩ := h
      refine .bind (eval_meets hf left s hleft hs) fun v => ?_
      exact .bind (eval_meets hf right s hright hs) fun w => .perform (c.closed rfl)
  | _, .and operands, s, h, hs => by
      simp only [parts, List.forall_mem_cons] at h
      exact .conjoin (evalAll_meets hf operands s h.2 hs) _
  | _, .or operands, s, h, hs => by
      simp only [parts, List.forall_mem_cons] at h
      exact .disjoin (evalAll_meets hf operands s h.2 hs) _
  | _, .not operand, s, h, hs => by
      simp only [parts, List.forall_mem_cons] at h
      exact .bind (eval_meets hf operand s h.2 hs) fun _ => .pure _
  | _, .variadic op first second rest, s, h, hs => by
      simp only [parts, List.forall_mem_cons, List.forall_mem_append] at h
      obtain ⟨-, ⟨hfirst, hsecond⟩, hrest⟩ := h
      refine .bind (eval_meets hf first s hfirst hs) fun v => ?_
      refine .bind (requireNumber_meets (.variadic op) 0 v) fun x => ?_
      refine .bind (eval_meets hf second s hsecond hs) fun w => ?_
      refine .bind (requireNumber_meets (.variadic op) 1 w) fun y => ?_
      refine .bind (requireNumbers_meets (evalAll_meets hf rest s hrest hs) 2) fun zs => ?_
      exact .perform (c.closed rfl)
  | _, .dyadic op left right, s, h, hs => by
      simp only [parts, List.forall_mem_cons, List.forall_mem_append] at h
      obtain ⟨-, hleft, hright⟩ := h
      refine .bind (eval_meets hf left s hleft hs) fun v => ?_
      refine .bind (requireNumber_meets (.dyadic op) 0 v) fun x => ?_
      refine .bind (eval_meets hf right s hright hs) fun w => ?_
      refine .bind (requireNumber_meets (.dyadic op) 1 w) fun y => ?_
      exact .perform (c.closed rfl)

theorem evalOption_meets (hf : c.AllowsFilters) : ∀ {bound : List String} (o : Option Expr)
    (s : Scope), (∀ p ∈ partsOption bound o, c.AllowsPart host p) → s.Binds bound →
    Meets c (evalOption host o s)
  | _, none, _, _, _ => .pure _
  | _, some e, s, h, hs => eval_meets hf e s h hs

theorem evalReaction_meets (hf : c.AllowsFilters) (strict : Option Bool) (details : List String) :
    ∀ {bound : List String} (o : Option Expr) (s : Scope),
    (∀ p ∈ partsOption ("errors" :: bound) o, c.AllowsPart host p) → s.Binds bound →
    Meets c (evalReaction host strict details o s)
  | _, some e, s, h, hs => eval_meets hf e _ h hs.child
  | _, none, s, h, hs => by
      show Meets c (if strict.getD host.settings.strictValidation then
        .fail (.schemaViolation details) else pure (Value.bool false))
      split
      · exact .fail rfl
      · exact .pure _

theorem evalCases_meets (hf : c.AllowsFilters) {fallback : Action σ Value} (v : Value)
    (hfallback : Meets c fallback) : ∀ {bound : List String} (cases : List (Case Expr)) (s : Scope),
    (∀ p ∈ partsCases bound cases, c.AllowsPart host p) → s.Binds bound →
    Meets c (evalCases host v fallback cases s)
  | _, [], _, _, _ => hfallback
  | _, ⟨subject, result⟩ :: rest, s, h, hs => by
      simp only [partsCases, List.forall_mem_append] at h
      show Meets c (if v.equal subject then eval host result s
        else evalCases host v fallback rest s)
      split
      · exact eval_meets hf result s h.1 hs
      · exact evalCases_meets hf v hfallback rest s h.2 hs

theorem evalAll_meets (hf : c.AllowsFilters) : ∀ {bound : List String} (es : List Expr) (s : Scope),
    (∀ p ∈ partsAll bound es, c.AllowsPart host p) → s.Binds bound →
    ∀ act ∈ evalAll host es s, Meets c act
  | _, [], _, _, _ => fun _ hact => by cases hact
  | _, e :: rest, s, h, hs => by
      simp only [partsAll, List.forall_mem_append] at h
      exact List.forall_mem_cons.mpr ⟨eval_meets hf e s h.1 hs, evalAll_meets hf rest s h.2 hs⟩

theorem evalFields_meets (hf : c.AllowsFilters) : ∀ {bound : List String}
    (fs : List (String × Expr)) (s : Scope), (∀ p ∈ partsFields bound fs, c.AllowsPart host p) →
    s.Binds bound → Meets c (evalFields host fs s)
  | _, [], _, _, _ => .pure _
  | _, (_, e) :: rest, s, h, hs => by
      simp only [partsFields, List.forall_mem_append] at h
      refine .bind (eval_meets hf e s h.1 hs) fun _ => ?_
      exact .bind (evalFields_meets hf rest s h.2 hs) fun _ => .pure _

theorem evalPayload_meets (hf : c.AllowsFilters) : ∀ {bound : List String} (p : Payload Expr)
    (s : Scope), (∀ q ∈ partsPayload bound p, c.AllowsPart host q) → s.Binds bound →
    Meets c (evalPayload host p s)
  | _, .expr e, s, h, hs => eval_meets hf e s h hs
  | _, .fields fs, s, h, hs => .bind (evalFields_meets hf fs s h hs) fun _ => .pure _

theorem evalMerge_meets (hf : c.AllowsFilters) (position : Nat) (merged : Fields Value) :
    ∀ {bound : List String} (ps : List (Payload Expr)) (s : Scope),
    (∀ q ∈ partsPayloads bound ps, c.AllowsPart host q) → s.Binds bound →
    Meets c (evalMerge host position merged ps s)
  | _, [], _, _, _ => .pure _
  | _, p :: rest, s, h, hs => by
      simp only [partsPayloads, List.forall_mem_append] at h
      refine .bind (evalPayload_meets hf p s h.1 hs) fun v => ?_
      refine .bind (requireObject_meets _ v) fun fields => ?_
      exact evalMerge_meets hf (position + 1) (merged.overlay fields) rest s h.2 hs

theorem evalCriteria_meets (hf : c.AllowsFilters) : ∀ {bound : List String}
    (o : Option (Payload Expr)) (s : Scope),
    (∀ q ∈ partsPayloadOption bound o, c.AllowsPart host q) → s.Binds bound →
    Meets c (evalCriteria host o s)
  | _, none, _, _, _ => .pure _
  | _, some p, s, h, hs =>
      .bind (evalPayload_meets hf p s h hs) fun v => requireObject_meets _ v

end

end Expr

/-! ## Contracts that are conditions on notes -/

namespace Contract

variable {host : Host σ} {Good : Note → Prop}
  {closed : ∀ {o : Operation}, o.isClosed = true → Good (.operation o)}

theorem permits_ofNotes {o : Operation} :
    (ofNotes Good closed).Permits o ↔ Good (.operation o) :=
  List.forall_mem_singleton

/-- A condition that all notes of filters satisfy leaves them free to read. -/
theorem ofNotes_allowsFilters (h : ∀ n, Good (.filtered n)) :
    (ofNotes Good closed).AllowsFilters := by
  refine ⟨ofNotes (fun _ => True) fun _ => trivial, fun _ n hn => ?_, fun _ _ _ _ => trivial⟩
  obtain ⟨m, -, rfl⟩ := List.mem_map.mp hn
  exact h m

/-- The schema of a validation is noted if it is given by its name. -/
theorem requireSchema_ofNotes {schema : SchemaRef}
    (h : ∀ name ∈ Expr.schemaName schema, Good (.schema name)) :
    Meets (ofNotes Good closed) (Expr.requireSchema host schema) := by
  cases schema with
  | inline fields => exact .pure fields
  | named name =>
      refine .bind (.note (List.forall_mem_singleton.mpr (h name List.mem_cons_self))) fun _ => ?_
      split
      · exact .pure _
      · exact .fail rfl

/-- A part keeps a condition on notes if the names that it reads and the
schemas that it names satisfy it. -/
theorem ofNotes_allowsPart {p : Expr.Part}
    (hread : ∀ path s, p.expr = .get path → s.Binds p.bound → Good (.operation (.read path s)))
    (hrender : ∀ engine template s, p.expr = .renderString template none → s.Binds p.bound →
      Good (.operation (.renderIn engine template s)))
    (hschema : ∀ name ∈ p.schemaNames, Good (.schema name)) :
    (ofNotes Good closed).AllowsPart host p := by
  obtain ⟨bound, e⟩ := p
  cases e with
  | get path => exact fun s hs => permits_ofNotes.mpr (hread path s rfl hs)
  | renderString template vars =>
      cases vars with
      | some p => trivial
      | none => exact fun engine s hs => permits_ofNotes.mpr (hrender engine template s rfl hs)
  | validate value schema strict onFail =>
      exact ⟨requireSchema_ofNotes hschema, fun _ _ => .ofExcept fun _ _ => ofNotes_nil⟩
  | _ => trivial

end Contract

end Conduit
