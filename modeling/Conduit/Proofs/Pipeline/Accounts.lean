import Conduit.Proofs.Expr.Parts
import Conduit.Proofs.Pipeline.Log
import Conduit.Proofs.Scope

/-!
# Accounts of runs

What a run has to show for itself at its end, whichever it is. The values it
gives are those of its first stages, one for each and in order. Its scope is
the one that it began with and the values of the named ones among these stages,
and each stage was evaluated in what the stages before it had made of it. It is
completed only after the last stage; if it returned or failed, it did so at the
stage after those that it has values of.

There is one exception. A value that is bound may be one that the log cannot
show. The run then fails at that stage, and yet its scope has what the stage has
bound. This is so whenever such a value is bound, and then only.
-/

namespace Conduit

namespace Pipeline

variable {σ : Type} {host : Host σ}

/-- What the named ones among the stages that were done have bound. -/
def bindings (done : List (Option String × Value)) : Fields Value :=
  done.filterMap fun d => d.1.map fun name => (name, d.2)

theorem bindings_cons (d : Option String × Value) (done : List (Option String × Value)) :
    bindings (d :: done) = bindings [d] ++ bindings done := by
  obtain ⟨name, v⟩ := d
  cases name <;> rfl

theorem extends_bindValue {name : Option String} {v : Value} {s t : Scope}
    (h : bindValue name v s = .ok t) : s.Extends (bindings [(name, v)]) t := by
  cases name with
  | none =>
      cases h
      exact .refl s
  | some name => exact .of_bind h

/-- Why a run fails at the stage after those that it has done. -/
inductive Breaks (stages : Pipeline) (visits : List Visit)
    (done : List (Option String × Value)) : Failure → Prop where
  /-- The next stage is not evaluated any more. -/
  | refused (unvisited : visits.length = done.length) (more : done.length < stages.length) :
    Breaks stages visits done .cancelled
  | failed {visit : Visit} {f : Failure} (reached : visits[done.length]? = some visit)
    (result : visit.result = .error (.failed f)) : Breaks stages visits done f
  /-- The next stage has a value, but its name is taken. -/
  | unbound {visit : Visit} {name : String} {v : Value}
    (reached : visits[done.length]? = some visit) (result : visit.result = .ok v)
    (named : visit.stage.name = some name) (taken : visit.scope.contains name = true) :
    Breaks stages visits done (.duplicateBinding name)

/-- A run fails at a stage that it has done: the value is bound, but the log
cannot show it. -/
structure Oversteps (host : Host σ) (visits : List Visit) (done : List (Option String × Value))
    (f : Failure) : Prop where
  unvisited : visits.length = done.length
  last : ∃ d, done.getLast? = some d ∧ Unwritable host d.2
  failure : f = .limit .longInteger

/-- What there is to say at the end of a run that had come so far at its
beginning: how the stages that were visited and those that were done, its scope
and its outcome belong together. -/
structure Accounts (host : Host σ) (stages : Pipeline) (p : Progress σ) (visits : List Visit)
    (done : List (Option String × Value)) (ended : RunEnd) : Prop where
  /-- The stages are visited in order. -/
  visited : visits.map Visit.stage = stages.take visits.length
  /-- The stages that are done are the first ones visited, with their values. -/
  values : List.Forall₂ (fun d visit => d.1 = visit.stage.name ∧ visit.result = .ok d.2) done
    (visits.take done.length)
  /-- A stage sees what was bound at the beginning and before it. -/
  scopes : ∀ i visit, visits[i]? = some visit →
    p.scope.Extends (bindings (done.take i)) visit.scope
  /-- However the run ends, that is what its scope is. -/
  scope : p.scope.Extends (bindings done) ended.scope
  completed : ∀ output results, ended.outcome = .ok ⟨.completed, output, results⟩ →
    results = p.results ++ done ∧ done.length = stages.length ∧
      output = (done.getLast?.map Prod.snd).getD p.output
  returned : ∀ output results, ended.outcome = .ok ⟨.returned, output, results⟩ →
    results = p.results ++ done ∧
      ∃ visit, visits[done.length]? = some visit ∧ visit.result = .error (.returned output)
  failed : ∀ f, ended.outcome = .error f →
    Breaks stages visits done f ∨ Oversteps host visits done f
  /-- A value that the log cannot show is the last that is bound. -/
  unwritten : ∀ d ∈ done, Unwritable host d.2 →
    ∃ f, ended.outcome = .error f ∧ Oversteps host visits done f

variable {stages : Pipeline} {p : Progress σ} {visits : List Visit}
  {done : List (Option String × Value)} {ended : RunEnd} {w : World σ}

theorem Breaks.next {f : Failure} (h : Breaks stages visits done f) (stage : Stage)
    (visit : Visit) (d : Option String × Value) :
    Breaks (stage :: stages) (visit :: visits) (d :: done) f := by
  cases h with
  | refused unvisited more =>
      exact .refused (congrArg (· + 1) unvisited) (Nat.succ_lt_succ more)
  | failed reached result => exact .failed reached result
  | unbound reached result named taken => exact .unbound reached result named taken

theorem Oversteps.next {f : Failure} (h : Oversteps host visits done f) (visit : Visit)
    (d : Option String × Value) : Oversteps host (visit :: visits) (d :: done) f := by
  obtain ⟨last, hlast, hunwritable⟩ := h.last
  refine ⟨congrArg (· + 1) h.unvisited, ⟨last, ?_, hunwritable⟩, h.failure⟩
  rw [List.getLast?_cons, hlast]
  rfl

theorem Oversteps.single {visit : Visit} {d : Option String × Value} (h : Unwritable host d.2) :
    Oversteps host [visit] [d] (.limit .longInteger) := ⟨rfl, ⟨d, rfl, h⟩, rfl⟩

theorem Evaluates.extends_of_single {stage : Stage} {visit : Visit}
    (h : Evaluates host stage p.scope p.world visit w) (i : Nat) (visit' : Visit)
    (hvisit : [visit][i]? = some visit') :
    p.scope.Extends (bindings (done.take i)) visit'.scope := by
  obtain ⟨rfl, rfl⟩ : i = 0 ∧ visit = visit' := by
    simpa [List.getElem?_singleton] using hvisit
  rw [h.visit_eq.2]
  exact .refl _

/-- The accounts of a run that ends at its next stage. -/
theorem accounts_of_visit {stage : Stage} {rest : Pipeline} {visit : Visit}
    {outcome : Except Failure RunResult}
    (evaluated : Evaluates host stage p.scope p.world visit w)
    (hcompleted : ∀ output results, outcome ≠ .ok ⟨.completed, output, results⟩)
    (hreturned : ∀ output results, outcome = .ok ⟨.returned, output, results⟩ →
      results = p.results ∧ visit.result = .error (.returned output))
    (hfailed : ∀ f, outcome = .error f → Breaks (stage :: rest) [visit] [] f) :
    Accounts host (stage :: rest) p [visit] [] ⟨p.scope, outcome⟩ := by
  obtain ⟨rfl, -⟩ := evaluated.visit_eq
  refine ⟨rfl, .nil, evaluated.extends_of_single, .refl _,
    fun output results h => absurd h (hcompleted _ _), ?_, fun f h => .inl (hfailed f h), by simp⟩
  intro output results h
  obtain ⟨hresults, hresult⟩ := hreturned output results h
  exact ⟨hresults.trans (List.append_nil _).symm, visit, rfl, hresult⟩

/-- The accounts of a run from those of the rest after a stage that is done. -/
theorem Accounts.next {stage : Stage} {rest : Pipeline} {visit : Visit} {v : Value}
    {inner : Scope} {between : World σ}
    (evaluated : Evaluates host stage p.scope p.world visit between)
    (hresult : visit.result = .ok v) (hbound : bindValue stage.name v p.scope = .ok inner)
    (hwritable : ¬Unwritable host v)
    (h : Accounts host rest ⟨p.results ++ [(stage.name, v)], v, inner, between⟩ visits done ended) :
    Accounts host (stage :: rest) p (visit :: visits) ((stage.name, v) :: done) ended := by
  obtain ⟨rfl, hscope⟩ := evaluated.visit_eq
  have hinner : p.scope.Extends (bindings [(visit.stage.name, v)]) inner :=
    extends_bindValue hbound
  refine ⟨?_, .cons ⟨rfl, hresult⟩ h.values, ?_, ?_, ?_, ?_, ?_, ?_⟩
  · rw [List.map_cons, h.visited]
    rfl
  · intro i visit' hvisit
    cases i with
    | zero =>
        cases hvisit
        rw [hscope]
        exact .refl _
    | succ i =>
        rw [List.take_succ_cons, bindings_cons]
        exact hinner.trans (h.scopes i visit' hvisit)
  · rw [bindings_cons]
    exact hinner.trans h.scope
  · intro output results hend
    obtain ⟨hresults, hlength, houtput⟩ := h.completed output results hend
    refine ⟨?_, congrArg (· + 1) hlength, ?_⟩
    · rw [hresults, List.append_assoc]
      rfl
    · rw [houtput, List.getLast?_cons]
      cases done.getLast? <;> rfl
  · intro output results hend
    obtain ⟨hresults, hreturn⟩ := h.returned output results hend
    refine ⟨?_, hreturn⟩
    rw [hresults, List.append_assoc]
    rfl
  · intro f hend
    exact (h.failed f hend).imp (·.next visit.stage visit _) (·.next visit _)
  · intro d hd hunwritable
    rcases List.mem_cons.mp hd with rfl | hd
    · exact absurd hunwritable hwritable
    · obtain ⟨f, hend, hoversteps⟩ := h.unwritten d hd hunwritable
      exact ⟨f, hend, hoversteps.next visit _⟩

theorem accounts_of_course (h : Course host stages p visits done ended w) :
    Accounts host stages p visits done ended := by
  induction h with
  | completed after =>
      refine ⟨rfl, .nil, by simp, .refl _, ?_, by simp, by simp, by simp⟩
      rintro output results ⟨⟩
      exact ⟨(List.append_nil _).symm, rfl, rfl⟩
  | refused cancelled after =>
      refine ⟨rfl, .nil, by simp, .refl _, by simp, by simp, ?_, by simp⟩
      rintro f ⟨⟩
      exact .inl (.refused rfl (Nat.succ_pos _))
  | returned evaluated result =>
      refine accounts_of_visit evaluated (by simp) ?_ (by simp)
      rintro output results ⟨⟩
      exact ⟨rfl, result⟩
  | failed evaluated result =>
      refine accounts_of_visit evaluated (by simp) (by simp) ?_
      rintro f ⟨⟩
      exact .failed rfl result
  | unbound evaluated result bound =>
      refine accounts_of_visit evaluated (by simp) (by simp) ?_
      rintro f ⟨⟩
      obtain ⟨name, hname, htaken, rfl⟩ := bindValue_eq_error bound
      obtain ⟨rfl, hscope⟩ := evaluated.visit_eq
      exact .unbound rfl result hname (hscope ▸ htaken)
  | unwritten evaluated result bound preview =>
      obtain ⟨rfl, -⟩ := evaluated.visit_eq
      obtain ⟨hunwritable, rfl⟩ := previewOf_eq_error_iff.mp preview
      refine ⟨rfl, .cons ⟨rfl, result⟩ .nil, evaluated.extends_of_single, extends_bindValue bound,
        by simp, by simp, ?_, fun _ _ _ => ⟨_, rfl, .single hunwritable⟩⟩
      rintro f ⟨⟩
      exact .inr (.single hunwritable)
  | next evaluated result bound preview onwards ih =>
      refine ih.next evaluated result bound fun hunwritable => ?_
      rw [previewOf_eq_error_iff.mpr ⟨hunwritable, rfl⟩] at preview
      cases preview

/-- No template in the stages has a tag, which could change the objects that the
scope holds. -/
def IsPlain (stages : Pipeline) : Prop :=
  ∀ stage ∈ stages, ∀ p ∈ Expr.parts [] stage.value, p.expr.isPlain = true

/-- Whatever the database and the clock do, and however a run of a pipeline
ends, its results, its output and its scope are those of the stages that it has
done; and if it fails, it does so at the next stage, unless a value was bound
that the log is to show and cannot. The templates have no tags: nothing here
changes a value once it is there, but an engine could. -/
theorem run_accounts (_plain : IsPlain stages) (host : Host σ) (s : Scope) (w : World σ) :
    ∃ visits done,
      Course host stages ⟨[], .null, s, w⟩ visits done ((run host stages s).run w).1
        ((run host stages s).run w).2 ∧
      Accounts host stages ⟨[], .null, s, w⟩ visits done ((run host stages s).run w).1 := by
  obtain ⟨visits, done, hcourse⟩ := exists_course host stages [] .null s w
  exact ⟨visits, done, hcourse, accounts_of_course hcourse⟩

/-- The square of a long integer is bound by the stage at which the run fails. -/
theorem run_accounts_squareFirst :
    IsPlain (squareFirst (withZeros 3000)) ∧ ∃ visits done,
      Accounts showing (squareFirst (withZeros 3000)) ⟨[], .null, .ofFields [], { outside := () }⟩
        visits done ⟨⟨[("x", .int (withZeros 3000 * withZeros 3000))], []⟩,
          .error (.limit .longInteger)⟩ ∧
      Oversteps showing visits done (.limit .longInteger) := by
  have hplain : IsPlain (squareFirst (withZeros 3000)) := by
    simp [IsPlain, squareFirst, squareStage, Expr.parts, Expr.partsAll, Expr.isPlain]
  have hlong : (Value.int (withZeros 3000 * withZeros 3000)).HasLongInteger :=
    hasLongInteger_withZeros (by decide)
  obtain ⟨visits, done, -, h⟩ :=
    run_accounts hplain showing (.ofFields []) { outside := () }
  rw [(run_squareFirst hlong).1] at h
  refine ⟨hplain, visits, done, h, ?_⟩
  have hbound : (bindings done).get? "x" = some (.int (withZeros 3000 * withZeros 3000)) :=
    (h.scope.get? "x").symm
  obtain ⟨d, hd, hname⟩ := List.mem_filterMap.mp (Fields.mem_of_get? hbound)
  obtain ⟨name, -, heq⟩ := Option.map_eq_some_iff.mp hname
  obtain ⟨f, hend, hoversteps⟩ := h.unwritten d hd ⟨rfl, by rw [(Prod.mk.inj heq).2]; exact hlong⟩
  cases hend
  exact hoversteps

end Pipeline

end Conduit
