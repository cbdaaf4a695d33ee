import Conduit.Proofs.Eval.Limits
import Conduit.Proofs.Query.Order

/-!
# What queries come to

A filter reads paths and compares values, and does nothing else. So what it comes
to on a candidate is a matter of the scope alone: it holds or fails, it misses
what it asks for, or it exceeds a numeric limit. A query whose filters are decided
by these verdicts needs no world; evaluation comes to the same in every world, and
leaves the world as it was, apart from the notes.
-/

namespace Conduit

/-! ## Actions without a world -/

namespace Failure

/-- What is left of an outcome when failures of some kinds have a value. -/
def absorb {α : Type} (kinds : List FailureKind) (value : α) :
    Except Failure α → Except Failure α
  | .ok a => .ok a
  | .error f => if f.kind?.any kinds.contains then .ok value else .error f

end Failure

namespace Action

variable {σ ε α β : Type} {signal : ε → Signal}

/-- From every world the action ends in the same way, and leaves nothing behind
but notes. -/
def EndsAs (signal : ε → Signal) (act : Action σ α) (r : Except ε α) : Prop :=
  ∀ w, ∃ notes, act.run.run w = (r.mapError signal, { w with notes })

namespace EndsAs

theorem pure (a : α) : EndsAs signal (pure a : Action σ α) (.ok a) := fun w => ⟨w.notes, rfl⟩

theorem note (n : Note) : EndsAs signal (.note n : Action σ Unit) (.ok ()) :=
  fun w => ⟨n :: w.notes, rfl⟩

theorem fail (f : ε) {g : Failure} (h : signal f = .failed g) :
    EndsAs signal (.fail g : Action σ α) (.error f) :=
  fun w => ⟨w.notes, by rw [Except.mapError, h]; rfl⟩

theorem perform (o : Operation) :
    EndsAs .failed (.perform o : Action σ Value) o.result := by
  intro w
  refine ⟨.operation o :: w.notes, ?_⟩
  unfold Action.perform Action.ofExcept
  cases o.result <;> rfl

theorem bind {x : Action σ α} {r : Except ε α} {f : α → Action σ β} {g : α → Except ε β}
    (hx : EndsAs signal x r) (hf : ∀ a, EndsAs signal (f a) (g a)) :
    EndsAs signal (x >>= f) (r >>= g) := by
  intro w
  obtain ⟨notes, hw⟩ := hx w
  rw [run_bind, hw]
  cases r with
  | error e => exact ⟨notes, rfl⟩
  | ok a => exact hf a { w with notes }

theorem recover {x : Action σ α} {r : Except Failure α} (kinds : List FailureKind) (a : α)
    (hx : EndsAs .failed x r) :
    EndsAs .failed (.recover kinds a x) (Failure.absorb kinds a r) := by
  intro w
  obtain ⟨notes, hw⟩ := hx w
  refine ⟨notes, ?_⟩
  rw [run_recover, hw]
  cases r with
  | ok b => rfl
  | error f =>
      dsimp only [Except.mapError, Failure.absorb]
      split <;> rfl

theorem inFilter {x : Action σ α} {r : Except ε α} (hx : EndsAs signal x r) :
    EndsAs signal x.inFilter r := by
  intro w
  obtain ⟨notes, hw⟩ := hx { w with notes := [] }
  exact ⟨notes.map .filtered ++ w.notes, by rw [run_inFilter, hw]⟩

theorem conjoin {acts : List (Action σ Value)} {rs : List (Except ε Value)}
    (h : List.Forall₂ (EndsAs signal) acts rs) (last : Value) :
    EndsAs signal (Action.conjoin last acts) (Action.conjoin last rs) := by
  induction h generalizing last with
  | nil => exact .pure last
  | cons hact _ ih =>
      refine .bind hact fun v => ?_
      split
      · exact ih v
      · exact .pure v

theorem disjoin {acts : List (Action σ Value)} {rs : List (Except ε Value)}
    (h : List.Forall₂ (EndsAs signal) acts rs) (last : Value) :
    EndsAs signal (Action.disjoin last acts) (Action.disjoin last rs) := by
  induction h generalizing last with
  | nil => exact .pure last
  | cons hact _ ih =>
      refine .bind hact fun v => ?_
      split
      · exact .pure v
      · exact ih v

end EndsAs

end Action

open Action (EndsAs)

variable {σ : Type}

namespace Query

/-! ## Verdicts -/

namespace Filter

mutual

/-- What a filter comes to in a scope. -/
def value (s : Scope) : Filter → Except Failure Value
  | .literal v => .ok v
  | .path p => s.resolve p
  | .present p => Failure.absorb [.pathNotFound] (.bool false) do
    let v ← s.resolve p
    .ok (.bool !v.isNull)
  | .compare op left right => do
    let v ← value s left
    let w ← value s right
    (Operation.compare op v w).result
  | .not operand => do
    let v ← value s operand
    .ok (.bool !v.truthy)
  | .and operands => Action.conjoin (.bool true) (values s operands)
  | .or operands => Action.disjoin (.bool false) (values s operands)

def values (s : Scope) : List Filter → List (Except Failure Value)
  | [] => []
  | f :: rest => value s f :: values s rest

end

end Filter

/-- What is to be said of a candidate. -/
inductive Verdict where
  | holds
  | fails
  /-- A path leads nowhere, or values have no order. -/
  | misses
  | exceeds (l : Limit)
  deriving DecidableEq, Repr

namespace Verdict

def of : Except Failure Value → Verdict
  | .ok v => if v.truthy then .holds else .fails
  | .error (.limit l) => .exceeds l
  | .error _ => .misses

theorem of_eq_exceeds_iff {r : Except Failure Value} {l : Limit} :
    of r = .exceeds l ↔ r = .error (.limit l) := by
  unfold of
  split
  · split <;> simp
  · simp
  · next f hf =>
      refine iff_of_false (fun h => by cases h) ?_
      rintro ⟨⟩
      exact hf l rfl

/-- Whether the candidate is kept. -/
def accepts : Verdict → Except Limit Bool
  | .holds => .ok true
  | .exceeds l => .error l
  | _ => .ok false

end Verdict

/-- What a filter says of a candidate. -/
def Filter.verdict (f : Filter) (s : Scope) (candidate : Value) : Verdict :=
  .of (f.value (s.child [("@", candidate)]))

theorem run_single {m : Type → Type} {P : Type} [Monad m] [LawfulMonad m] (judge : Judge m P)
    (segment : Segment P) (root : Value) :
    run judge [segment] root = select judge segment root := by
  simp only [run, runFrom, collect, pure_bind, bind_pure, List.append_nil]

/-- The judge that goes by verdicts. -/
def verdicts (s : Scope) : Judge (Except Limit) Filter where
  accepts f candidate := (f.verdict s candidate).accepts
  overrun l := .error l

end Query

/-! ## Failures of a filter -/

/-- The limits that a query can run past: an integer that is compared is too large,
or a name of digits is too long to be a position. -/
def Limit.IsOfQuery (l : Limit) : Prop := l = .intTooLarge ∨ ∃ digits, l = .longNumeral digits

/-- A failure that a filter can come to: one that means a miss, or a limit. -/
def Failure.IsOfFilter (f : Failure) : Prop :=
  f.kind?.any Expr.misses.contains = true ∨ ∃ l, f = .limit l ∧ l.IsOfQuery

/-- An outcome that is good, or else stops for one of some reasons. -/
def Settles {ε α : Type} (Reason : ε → Prop) (Good : α → Prop) : Except ε α → Prop
  | .ok a => Good a
  | .error e => Reason e

namespace Settles

variable {ε α β : Type} {Reason : ε → Prop} {Good Good' : α → Prop} {Good'' : β → Prop}
  {x : Except ε α}

theorem of_error (h : ∀ e, x = .error e → Reason e) : Settles Reason (fun _ => True) x := by
  cases x with
  | ok a => trivial
  | error e => exact h e rfl

theorem mono (hx : Settles Reason Good x) (h : ∀ a, Good a → Good' a) :
    Settles Reason Good' x := by
  cases x with
  | ok a => exact h a hx
  | error e => exact hx

theorem bind {f : α → Except ε β} (hx : Settles Reason Good x)
    (hf : ∀ a, Good a → Settles Reason Good'' (f a)) : Settles Reason Good'' (x >>= f) := by
  cases x with
  | ok a => exact hf a hx
  | error e => exact hx

theorem conjoin {rs : List (Except ε Value)} (h : ∀ r ∈ rs, Settles Reason (fun _ => True) r)
    (last : Value) : Settles Reason (fun _ => True) (Action.conjoin last rs) := by
  induction rs generalizing last with
  | nil => trivial
  | cons r rest ih =>
      obtain ⟨hr, hrest⟩ := List.forall_mem_cons.mp h
      refine hr.bind fun v _ => ?_
      split
      · exact ih hrest v
      · trivial

theorem disjoin {rs : List (Except ε Value)} (h : ∀ r ∈ rs, Settles Reason (fun _ => True) r)
    (last : Value) : Settles Reason (fun _ => True) (Action.disjoin last rs) := by
  induction rs generalizing last with
  | nil => trivial
  | cons r rest ih =>
      obtain ⟨hr, hrest⟩ := List.forall_mem_cons.mp h
      refine hr.bind fun v _ => ?_
      split
      · trivial
      · exact ih hrest v

theorem absorb {x : Except Failure α} {Reason : Failure → Prop}
    (hx : Settles Reason (fun _ => True) x) (kinds : List FailureKind) (a : α) :
    Settles Reason (fun _ => True) (Failure.absorb kinds a x) := by
  cases x with
  | ok b => trivial
  | error f =>
      rw [Failure.absorb]
      split
      · trivial
      · exact hx

end Settles

variable {s : Scope} {f : Failure}

theorem Step.Exceeds.inv {l : Limit} {st : Step} {v : Value} (h : st.Exceeds l v) :
    ∃ name xs, st = .field name ∧ v = .arr xs ∧ l = .longNumeral name.length := by
  unfold Step.Exceeds at h
  split at h
  · exact ⟨_, _, rfl, rfl, h.2.2⟩
  · cases h

theorem Step.Exceeds.isOfQuery {l : Limit} {st : Step} {v : Value} (h : st.Exceeds l v) :
    l.IsOfQuery := by
  obtain ⟨name, -, -, -, rfl⟩ := h.inv
  exact .inr ⟨_, rfl⟩

theorem Step.follow_isOfFilter {path : String} {st : Step} {v : Value}
    (h : st.follow path v = .error f) : f.IsOfFilter := by
  unfold Step.follow at h
  split at h
  · split at h
    · split at h
      · next hl =>
          cases h
          exact .inr ⟨_, rfl, .inr ⟨_, (positionOf_eq_error_iff.mp hl).2⟩⟩
      · split at h <;> cases h
        exact .inl rfl
    · cases h
      exact .inl rfl
  · split at h <;> cases h
    exact .inl rfl
  · split at h <;> cases h
    exact .inl rfl
  · cases h
    exact .inl rfl

theorem DotPath.follow_isOfFilter {path : String} {steps : List Step} {v : Value}
    (h : follow path steps v = .error f) : f.IsOfFilter := by
  induction steps generalizing v with
  | nil => cases h
  | cons st rest ih =>
      rcases bind_eq_error_iff.mp h with hstep | ⟨w, -, hrest⟩
      · exact Step.follow_isOfFilter hstep
      · exact ih hrest

theorem Scope.resolve_isOfFilter {p : DotPath} (h : s.resolve p = .error f) : f.IsOfFilter := by
  unfold Scope.resolve at h
  split at h
  · exact DotPath.follow_isOfFilter h
  · cases h
    exact .inl rfl

theorem Operation.compare_isOfFilter {op : Comparison} {v w : Value}
    (h : (Operation.compare op v w).result = .error f) : f.IsOfFilter := by
  have hf := map_eq_error_iff.mp h
  cases hu : op.holds v w with
  | ok b =>
      rw [hu] at hf
      cases hf
  | error u =>
      rw [hu] at hf
      cases hf
      cases u with
      | kinds left right => exact .inl rfl
      | nan => exact .inl rfl
      | limit l =>
          obtain ⟨l', heq, -, -, -, -, -, -, hl⟩ := (result_eq_error_iff rfl).mp h
          exact .inr ⟨l', heq, .inl hl⟩

namespace Query

namespace Filter

mutual

theorem value_settles : ∀ f : Filter, Settles Failure.IsOfFilter (fun _ => True) (f.value s)
  | .literal _ => trivial
  | .path p => .of_error fun _ => Scope.resolve_isOfFilter
  | .present p => by
      rw [value]
      refine .absorb ?_ _ _
      exact .bind (.of_error fun _ => Scope.resolve_isOfFilter) fun _ _ => trivial
  | .compare op left right => by
      rw [value]
      refine (value_settles left).bind fun v _ => (value_settles right).bind fun w _ => ?_
      exact .of_error fun _ => Operation.compare_isOfFilter
  | .not operand => by
      rw [value]
      exact (value_settles operand).bind fun _ _ => trivial
  | .and operands => by
      rw [value]
      exact .conjoin (values_settle operands) _
  | .or operands => by
      rw [value]
      exact .disjoin (values_settle operands) _

theorem values_settle : ∀ fs : List Filter,
    ∀ r ∈ values s fs, Settles Failure.IsOfFilter (fun _ => True) r
  | [] => List.forall_mem_nil _
  | f :: rest => by
      rw [values]
      exact List.forall_mem_cons.mpr ⟨value_settles f, values_settle rest⟩

end

theorem isOfFilter_of_value {filter : Filter} (h : filter.value s = .error f) : f.IsOfFilter := by
  have hvalue := filter.value_settles (s := s)
  rwa [h] at hvalue

theorem limit_of_verdict {filter : Filter} {candidate : Value} {l : Limit}
    (h : filter.verdict s candidate = .exceeds l) : l.IsOfQuery := by
  rcases isOfFilter_of_value (Verdict.of_eq_exceeds_iff.mp h) with hmiss | ⟨l', heq, hl'⟩
  · cases hmiss
  · cases heq
    exact hl'

end Filter

end Query

/-! ## Evaluation goes by verdicts -/

namespace Expr

open Query

mutual

theorem evalFilter_endsAs : ∀ (f : Filter) (s : Scope),
    EndsAs .failed (evalFilter f s : Action σ Value) (f.value s)
  | .literal v, _ => .pure v
  | .path p, s => .perform (.read p s)
  | .present p, s => by
      rw [Filter.value]
      exact .recover _ _ (.bind (.perform (.read p s)) fun v => .pure _)
  | .compare op left right, s => by
      rw [Filter.value]
      refine .bind (evalFilter_endsAs left s) fun v => ?_
      exact .bind (evalFilter_endsAs right s) fun w => .perform _
  | .not operand, s => by
      rw [Filter.value]
      exact .bind (evalFilter_endsAs operand s) fun v => .pure _
  | .and operands, s => by
      rw [Filter.value]
      exact .conjoin (evalFilters_endAs operands s) _
  | .or operands, s => by
      rw [Filter.value]
      exact .disjoin (evalFilters_endAs operands s) _

theorem evalFilters_endAs : ∀ (fs : List Filter) (s : Scope),
    List.Forall₂ (EndsAs .failed) (evalFilters fs s : List (Action σ Value)) (Filter.values s fs)
  | [], _ => by
      rw [Filter.values]
      exact .nil
  | f :: rest, s => by
      rw [Filter.values]
      exact .cons (evalFilter_endsAs f s) (evalFilters_endAs rest s)

end

/-- How a limit ends an evaluation. -/
def stopAt (l : Limit) : Signal := .failed (.limit l)

theorem accepts_endsAs (f : Filter) (s : Scope) (candidate : Value) :
    EndsAs stopAt ((judge s).accepts f candidate : Action σ Bool)
      (f.verdict s candidate).accepts := by
  have hvalue : EndsAs .failed ((judge s).accepts f candidate : Action σ Bool)
      (Failure.absorb misses false do
        let v ← f.value (s.child [("@", candidate)])
        .ok v.truthy) :=
    .recover _ _ (.inFilter (.bind (evalFilter_endsAs f _) fun v => .pure _))
  intro w
  obtain ⟨notes, hw⟩ := hvalue w
  refine ⟨notes, hw.trans ?_⟩
  congr 1
  unfold Filter.verdict
  cases hr : f.value (s.child [("@", candidate)]) with
  | ok v =>
      show (Except.ok v.truthy : Except Signal Bool) =
        (if v.truthy then Verdict.holds else .fails).accepts.mapError stopAt
      cases v.truthy <;> rfl
  | error g =>
      rcases Filter.isOfFilter_of_value hr with hmiss | ⟨l, rfl, -⟩
      · have habsorb : Failure.absorb misses false (.error g) = .ok false := if_pos hmiss
        refine (congrArg _ habsorb).trans ?_
        cases g <;> first | rfl | cases hmiss
      · rfl

theorem keep_endsAs (f : Filter) (s : Scope) (vs : List Value) :
    EndsAs stopAt (keep (judge s) f vs : Action σ (List Value)) (keep (verdicts s) f vs) := by
  induction vs with
  | nil => exact .pure _
  | cons v rest ih =>
      exact .bind (accepts_endsAs f s v) fun _ => .bind ih fun _ => .pure _

theorem collect_endsAs {find : Value → Action σ (List Value)}
    {find' : Value → Except Limit (List Value)} (h : ∀ v, EndsAs stopAt (find v) (find' v))
    (vs : List Value) : EndsAs stopAt (collect find vs) (collect find' vs) := by
  induction vs with
  | nil => exact .pure _
  | cons v rest ih => exact .bind (h v) fun _ => .bind ih fun _ => .pure _

mutual

theorem select_endsAs (s : Scope) : ∀ (segment : Segment Filter) (v : Value),
    EndsAs stopAt (select (judge s) segment v : Action σ (List Value))
      (select (verdicts s) segment v)
  | .step st, v => by
      unfold select
      refine .bind (.note _) fun _ => ?_
      split
      · exact .pure _
      · exact .fail _ rfl
  | .wildcard, v => .pure v.children
  | .slice sl, v => by
      unfold select
      split
      · exact .pure _
      · exact .pure _
  | .filter f, v => keep_endsAs f s v.children
  | .selection selectors, v => selectAll_endsAs s selectors v
  | .descent inner, v => collect_endsAs (fun w => select_endsAs s inner w) v.descendants

theorem selectAll_endsAs (s : Scope) : ∀ (segments : List (Segment Filter)) (v : Value),
    EndsAs stopAt (selectAll (judge s) segments v : Action σ (List Value))
      (selectAll (verdicts s) segments v)
  | [], _ => .pure _
  | first :: rest, v => by
      refine .bind (select_endsAs s first v) fun _ => ?_
      exact .bind (selectAll_endsAs s rest v) fun _ => .pure _

end

theorem run_endsAs (s : Scope) (segments : List (Segment Filter)) (root : Value) :
    EndsAs stopAt (run (judge s) segments root : Action σ (List Value))
      (run (verdicts s) segments root) := by
  unfold run
  generalize [root] = found
  induction segments generalizing found with
  | nil => exact .pure found
  | cons segment rest ih =>
      exact .bind (collect_endsAs (select_endsAs s segment) found) fun next => ih next

end Expr

end Conduit
