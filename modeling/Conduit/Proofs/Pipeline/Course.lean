import Conduit.Pipeline
import Conduit.Proofs.Eval.Incidents
import Conduit.Proofs.Pipeline.Run

/-!
# The course of a run

How a run of a pipeline goes, stage by stage: which stages are evaluated, in
which scope and with which result, what happens meanwhile, which values are
bound, and how the run comes to its end. The course is a relation that has one
rule for each way in which a stage ends. What is to be shown of all runs is
shown by induction on it.
-/

namespace Conduit

variable {σ : Type}

/-- Worlds between which nothing was reported that matters to the outside, and
nothing else happened. -/
structure World.Silent (w w' : World σ) : Prop where
  outside : w'.outside = w.outside
  cancelled : w'.cancelled = w.cancelled
  calls : w'.calls = w.calls

namespace World.Silent

variable {w w' w'' : World σ}

theorem refl (w : World σ) : w.Silent w := ⟨rfl, rfl, rfl⟩

theorem trans (h : w.Silent w') (h' : w'.Silent w'') : w.Silent w'' :=
  ⟨h'.outside.trans h.outside, h'.cancelled.trans h.cancelled, h'.calls.trans h.calls⟩

end World.Silent

/-- The evaluation of a stage in a run, watched. -/
structure Visit where
  stage : Stage
  scope : Scope
  result : Except Signal Value
  incidents : List Incident

namespace Pipeline

variable {host : Host σ}

/-- A stage is evaluated in a scope, unless the run is cancelled. -/
inductive Evaluates (host : Host σ) (stage : Stage) (s : Scope) (w : World σ) :
    Visit → World σ → Prop where
  | intro {started ended : World σ} (going : w.cancelled = false) (before : w.Silent started)
    (after : (stage.value.watch host s started).2.world.Silent ended) :
    Evaluates host stage s w ⟨stage, s, (stage.value.watch host s started).1,
      (stage.value.watch host s started).2.incidents⟩ ended

/-- How far a run has come. -/
structure Progress (σ : Type) where
  results : List (Option String × Value)
  output : Value
  scope : Scope
  world : World σ

/-- The rest of a run: the visits of its stages, the values that are bound,
and the end. -/
inductive Course (host : Host σ) : Pipeline → Progress σ → List Visit →
    List (Option String × Value) → RunEnd → World σ → Prop where
  | completed {p : Progress σ} {w : World σ} (after : p.world.Silent w) :
    Course host [] p [] [] ⟨p.scope, .ok ⟨.completed, p.output, p.results⟩⟩ w
  /-- The run was cancelled before the stage. -/
  | refused {p : Progress σ} {stage : Stage} {rest : Pipeline} {w : World σ}
    (cancelled : p.world.cancelled = true) (after : p.world.Silent w) :
    Course host (stage :: rest) p [] [] ⟨p.scope, .error .cancelled⟩ w
  | returned {p : Progress σ} {stage : Stage} {rest : Pipeline} {w : World σ} {visit : Visit}
    {v : Value}
    (evaluated : Evaluates host stage p.scope p.world visit w)
    (result : visit.result = .error (.returned v)) :
    Course host (stage :: rest) p [visit] [] ⟨p.scope, .ok ⟨.returned, v, p.results⟩⟩ w
  | failed {p : Progress σ} {stage : Stage} {rest : Pipeline} {w : World σ} {visit : Visit}
    {f : Failure}
    (evaluated : Evaluates host stage p.scope p.world visit w)
    (result : visit.result = .error (.failed f)) :
    Course host (stage :: rest) p [visit] [] ⟨p.scope, .error f⟩ w
  /-- The value of the stage cannot be bound. -/
  | unbound {p : Progress σ} {stage : Stage} {rest : Pipeline} {w : World σ} {visit : Visit}
    {v : Value}
    {f : Failure} (evaluated : Evaluates host stage p.scope p.world visit w)
    (result : visit.result = .ok v) (bound : bindValue stage.name v p.scope = .error f) :
    Course host (stage :: rest) p [visit] [] ⟨p.scope, .error f⟩ w
  /-- The value of the stage is bound, but cannot be shown in the log. -/
  | unwritten {p : Progress σ} {stage : Stage} {rest : Pipeline} {w : World σ} {visit : Visit}
    {v : Value}
    {inner : Scope} {l : Limit} (evaluated : Evaluates host stage p.scope p.world visit w)
    (result : visit.result = .ok v) (bound : bindValue stage.name v p.scope = .ok inner)
    (preview : previewOf host.settings v = .error l) :
    Course host (stage :: rest) p [visit] [(stage.name, v)] ⟨inner, .error (.limit l)⟩ w
  | next {p : Progress σ} {stage : Stage} {rest : Pipeline} {visit : Visit} {v : Value}
    {inner : Scope} {preview : Option String} {between w : World σ} {visits : List Visit}
    {done : List (Option String × Value)} {ended : RunEnd}
    (evaluated : Evaluates host stage p.scope p.world visit between)
    (result : visit.result = .ok v) (bound : bindValue stage.name v p.scope = .ok inner)
    (preview : previewOf host.settings v = .ok preview)
    (onwards : Course host rest ⟨p.results ++ [(stage.name, v)], v, inner, between⟩ visits done
      ended w) :
    Course host (stage :: rest) p (visit :: visits) ((stage.name, v) :: done) ended w

/-- A stage that is visited is the next one, in the scope so far. -/
theorem Evaluates.visit_eq {stage : Stage} {s : Scope} {w w' : World σ} {visit : Visit}
    (h : Evaluates host stage s w visit w') : visit.stage = stage ∧ visit.scope = s := by
  cases h
  exact ⟨rfl, rfl⟩

/-! ## The steps of a run -/

theorem silent_noteBinding (name : Option String) (s : Scope) (w : World σ) :
    w.Silent ((noteBinding name s).run w).2 := by
  cases name <;> exact ⟨rfl, rfl, rfl⟩

theorem events_noteBinding (name : Option String) (s : Scope) (w : World σ) :
    ((noteBinding name s).run w).2.events = w.events := by
  cases name <;> rfl

/-- What is logged of a stage by its result. -/
def closing (host : Host σ) (stage : Stage) (s : Scope) : Except Signal Value → Option Event
  | .error (.returned _) => some (.earlyReturn stage.name)
  | .error (.failed f) => f.kind?.map fun kind => .error stage.name kind.name f.message
  | .ok v =>
    match bindValue stage.name v s with
    | .error _ => none
    | .ok _ =>
      match previewOf host.settings v with
      | .error _ => none
      | .ok preview => some (.stepComplete stage.name preview)

theorem run_evalStage (stage : Stage) (s : Scope) (w : World σ) :
    (evalStage host stage s).run.run w =
      if w.cancelled then (.error (.failed .cancelled), w)
      else ((stage.value.watch host s w).1, (stage.value.watch host s w).2.world) := by
  obtain ⟨hresult, hworld⟩ := Expr.watch_eq host stage.value s w
  unfold evalStage
  rw [Action.run_bind, Action.run_checkCancelled, hresult, hworld]
  cases w.cancelled <;> rfl

/-- The first stage of a run is evaluated, if the run is not cancelled, and the
run goes on from there. -/
theorem run_runFrom_cons (results : List (Option String × Value)) (output : Value) (stage : Stage)
    (rest : Pipeline) (s : Scope) (w : World σ) : ∃ started, w.Silent started ∧
    started.events = w.events ++ [.stepStart stage.name stage.value.operator.name] ∧
    (runFrom host results output (stage :: rest) s).run w =
      if w.cancelled then
        (conclude host results stage rest s (.error (.failed .cancelled))).run started
      else (conclude host results stage rest s (stage.value.watch host s started).1).run
        (stage.value.watch host s started).2.world := by
  let started : World σ :=
    { w with events := w.events ++ [.stepStart stage.name stage.value.operator.name] }
  refine ⟨started, ⟨rfl, rfl, rfl⟩, rfl, ?_⟩
  show (conclude host results stage rest s ((evalStage host stage s).run.run started).1).run
    ((evalStage host stage s).run.run started).2 = _
  have hcancelled : started.cancelled = w.cancelled := rfl
  rw [run_evalStage, hcancelled]
  cases w.cancelled <;> rfl

theorem run_conclude_returned (results : List (Option String × Value)) (stage : Stage)
    (rest : Pipeline) (s : Scope) (v : Value) (w : World σ) : ∃ w', w.Silent w' ∧
    w'.events = w.events ++ (closing host stage s (.error (.returned v))).toList ++
      [.pipelineComplete RunStatus.returned.name results.length] ∧
    (conclude host results stage rest s (.error (.returned v))).run w =
      (⟨s, .ok ⟨.returned, v, results⟩⟩, w') := by
  refine ⟨_, ?_, ?_, rfl⟩
  · exact ⟨rfl, rfl, rfl⟩
  · rfl

theorem run_conclude_failed (results : List (Option String × Value)) (stage : Stage)
    (rest : Pipeline) (s : Scope) (f : Failure) (w : World σ) : ∃ w', w.Silent w' ∧
    w'.events = w.events ++ (closing host stage s (.error (.failed f))).toList ∧
    (conclude host results stage rest s (.error (.failed f))).run w = (⟨s, .error f⟩, w') := by
  unfold conclude closing
  dsimp only
  split
  · next kind hkind =>
      rw [hkind]
      refine ⟨_, ?_, ?_, rfl⟩
      · exact ⟨rfl, rfl, rfl⟩
      · rfl
  · next hkind =>
      have hnone : f.kind? = none := Option.eq_none_iff_forall_not_mem.mpr hkind
      rw [hnone]
      exact ⟨w, .refl w, (List.append_nil _).symm, rfl⟩

theorem run_conclude_ok (results : List (Option String × Value)) (stage : Stage)
    (rest : Pipeline) (s : Scope) (v : Value) (w : World σ) : ∃ w', w.Silent w' ∧
    w'.events = w.events ++ (closing host stage s (.ok v)).toList ∧
    (conclude host results stage rest s (.ok v)).run w =
      match bindValue stage.name v s with
      | .error f => (⟨s, .error f⟩, w')
      | .ok inner =>
        match previewOf host.settings v with
        | .error l => (⟨inner, .error (.limit l)⟩, w')
        | .ok _ => (runFrom host (results ++ [(stage.name, v)]) v rest inner).run w' := by
  have hnoted := silent_noteBinding stage.name s w
  have hevents := events_noteBinding stage.name s w
  unfold conclude closing
  dsimp only
  rw [StateT.run_bind]
  rcases hnote : (noteBinding stage.name s).run w with ⟨u, noted⟩
  rw [hnote] at hnoted hevents
  have hnone : noted.events = w.events ++ [] := hevents.trans (List.append_nil _).symm
  cases bindValue stage.name v s with
  | error f => exact ⟨noted, hnoted, hnone, rfl⟩
  | ok inner =>
      dsimp only
      cases previewOf host.settings v with
      | error l => exact ⟨noted, hnoted, hnone, rfl⟩
      | ok preview =>
          refine ⟨_, hnoted.trans ?_, ?_, rfl⟩
          · exact ⟨rfl, rfl, rfl⟩
          · exact congrArg (· ++ [Event.stepComplete stage.name preview]) hevents

end Pipeline

end Conduit
