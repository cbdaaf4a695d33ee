import Conduit.Proofs.Number.Limits
import Conduit.Proofs.Pipeline.Course
import Conduit.Proofs.Scope

/-!
# The log of a run

Every run has a course, and with it goes a log: for each stage that was started,
its start, the calls that the database answered with a value, and what became
of the stage. What becomes of a stage that is done is that it is complete; after
all else the run is at its end. A run that has a result logs this last.

A stage may be done and yet nothing becomes of it: its value is to be shown, but
it holds an integer of too many digits.
-/

namespace Conduit

namespace Visit

variable {σ : Type}

/-- A stage that was started while the run was cancelled. -/
def refused (stage : Stage) (s : Scope) : Visit := ⟨stage, s, .error (.failed .cancelled), []⟩

/-- What became of a stage, as it is logged. -/
def closing (host : Host σ) (visit : Visit) : Option Event :=
  Pipeline.closing host visit.stage visit.scope visit.result

/-- All that is logged of a stage. -/
def log (host : Host σ) (visit : Visit) : List Event :=
  .stepStart visit.stage.name visit.stage.value.operator.name ::
    (Incident.events visit.incidents ++ (visit.closing host).toList)

def IsComplete (host : Host σ) (visit : Visit) : Prop :=
  ∃ preview, visit.closing host = some (.stepComplete visit.stage.name preview)

end Visit

/-- What is logged at the end of a run. -/
def RunEnd.report (ended : RunEnd) : List Event :=
  match ended.outcome with
  | .ok r => [.pipelineComplete r.status.name r.results.length]
  | .error _ => []

namespace Pipeline

variable {σ : Type} {host : Host σ}

/-- What a run has logged, where `steps` are the stages that were started. -/
structure Logged (host : Host σ) (stages : Pipeline) (before : List Event)
    (visits steps : List Visit) (ended : RunEnd) (after : List Event) : Prop where
  /-- The stages that were started are those that were visited, and the one
  before which the run was cancelled. -/
  started : steps = visits ∨
    ended.outcome = .error .cancelled ∧ ∃ stage s, steps = visits ++ [.refused stage s]
  order : steps.map Visit.stage = stages.take steps.length
  events : after = before ++ steps.flatMap (Visit.log host) ++ ended.report
  /-- No stage is started after one that is not complete. -/
  onwards : ∀ {earlier step later}, steps = earlier ++ step :: later → later ≠ [] →
    step.IsComplete host

variable {stage : Stage} {rest : Pipeline} {s : Scope} {visit : Visit} {visits steps : List Visit}
  {ended : RunEnd} {before between after : List Event}

/-- A run that ends at the stage that it starts with. -/
theorem Logged.single (hstage : visit.stage = stage) (hstarted : [visit] = visits ∨
      ended.outcome = .error .cancelled ∧ ∃ stage s, [visit] = visits ++ [.refused stage s])
    (hevents : after = before ++ visit.log host ++ ended.report) :
    Logged host (stage :: rest) before visits [visit] ended after := by
  refine ⟨hstarted, congrArg (fun stage => [stage]) hstage, ?_, ?_⟩
  · rw [hevents, List.flatMap_singleton]
  · rintro (_ | ⟨e, es⟩) step later hsteps hlater
    · cases hsteps
      exact absurd rfl hlater
    · simp at hsteps

/-- A run that goes on after a stage that is complete. -/
theorem Logged.next (hstage : visit.stage = stage) (hcomplete : visit.IsComplete host)
    (hbetween : between = before ++ visit.log host)
    (h : Logged host rest between visits steps ended after) :
    Logged host (stage :: rest) before (visit :: visits) (visit :: steps) ended after := by
  refine ⟨?_, ?_, ?_, ?_⟩
  · rcases h.started with hsteps | ⟨hend, stage, s, hsteps⟩
    · exact .inl (congrArg _ hsteps)
    · exact .inr ⟨hend, stage, s, congrArg _ hsteps⟩
  · rw [List.map_cons, h.order, hstage]
    rfl
  · rw [h.events, hbetween, List.flatMap_cons, List.append_assoc before]
  · rintro (_ | ⟨e, es⟩) step later hsteps hlater
    · cases hsteps
      exact hcomplete
    · obtain ⟨-, hrest⟩ := List.cons.inj hsteps
      exact h.onwards hrest hlater

/-- What is logged of a stage: first that it is started, then what its evaluation
reports, and then the rest. -/
theorem events_of_visit {w started : World σ} {more : List Event}
    (hstarted : started.events = w.events ++ [.stepStart stage.name stage.value.operator.name])
    (hafter : after = (stage.value.watch host s started).2.world.events ++
      (closing host stage s (stage.value.watch host s started).1).toList ++ more) :
    after = w.events ++ Visit.log host ⟨stage, s, (stage.value.watch host s started).1,
      (stage.value.watch host s started).2.incidents⟩ ++ more := by
  rw [hafter, Expr.watch_events, hstarted]
  simp [Visit.log, Visit.closing]

/-- Every run has a course, and a log that belongs to it. -/
theorem exists_logged_course (host : Host σ) (stages : Pipeline)
    (results : List (Option String × Value)) (output : Value) (s : Scope) (w : World σ) :
    ∃ visits done steps,
      Course host stages ⟨results, output, s, w⟩ visits done
        ((runFrom host results output stages s).run w).1
        ((runFrom host results output stages s).run w).2 ∧
      Logged host stages w.events visits steps ((runFrom host results output stages s).run w).1
        ((runFrom host results output stages s).run w).2.events := by
  induction stages generalizing results output s w with
  | nil =>
      refine ⟨[], [], [], .completed ⟨rfl, rfl, rfl⟩, .inl rfl, rfl, ?_, by simp⟩
      rw [List.flatMap_nil, List.append_nil]
      rfl
  | cons stage rest ih =>
      obtain ⟨started, hstarted, hstart, hrun⟩ := run_runFrom_cons results output stage rest s w
      rw [hrun]
      cases hc : w.cancelled with
      | true =>
          rw [if_pos rfl]
          obtain ⟨w', hw', hevents, hend⟩ :=
            run_conclude_failed results stage rest s .cancelled started
          rw [hend]
          refine ⟨[], [], [.refused stage s], .refused hc (hstarted.trans hw'),
            .single rfl (.inr ⟨rfl, stage, s, rfl⟩) ?_⟩
          rw [hevents, hstart, List.append_assoc]
          exact (List.append_nil _).symm
      | false =>
          rw [if_neg (by decide)]
          have hevaluates := @Evaluates.intro σ host stage s w started
          cases hresult : (stage.value.watch host s started).1 with
          | error signal =>
              cases signal with
              | returned v =>
                  obtain ⟨w', hw', hevents, hend⟩ :=
                    @run_conclude_returned σ host results stage rest s v _
                  rw [hend]
                  rw [← hresult] at hevents
                  exact ⟨_, _, _, .returned (hevaluates hc hstarted hw') hresult,
                    .single rfl (.inl rfl) (events_of_visit hstart hevents)⟩
              | failed f =>
                  obtain ⟨w', hw', hevents, hend⟩ :=
                    @run_conclude_failed σ host results stage rest s f _
                  rw [hend]
                  rw [← hresult, ← List.append_nil (_ ++ _)] at hevents
                  exact ⟨_, _, _, .failed (hevaluates hc hstarted hw') hresult,
                    .single rfl (.inl rfl) (events_of_visit hstart hevents)⟩
          | ok v =>
              obtain ⟨w', hw', hevents, hend⟩ := @run_conclude_ok σ host results stage rest s v _
              rw [hend]
              rw [← hresult, ← List.append_nil (_ ++ _)] at hevents
              have hlogged := events_of_visit hstart hevents
              cases hbound : bindValue stage.name v s with
              | error f =>
                  exact ⟨_, [], _, .unbound (hevaluates hc hstarted hw') hresult hbound,
                    .single rfl (.inl rfl) hlogged⟩
              | ok inner =>
                  cases hpreview : previewOf host.settings v with
                  | error l =>
                      exact ⟨_, _, _,
                        .unwritten (hevaluates hc hstarted hw') hresult hbound hpreview,
                        .single rfl (.inl rfl) hlogged⟩
                  | ok preview =>
                      obtain ⟨visits, done, steps, honwards, hlater⟩ := ih _ v inner w'
                      refine ⟨_, _, _, .next (hevaluates hc hstarted hw') hresult hbound hpreview
                        honwards, hlater.next rfl ⟨preview, ?_⟩ (hlogged.trans (List.append_nil _))⟩
                      simp [Visit.closing, closing, hresult, hbound, hpreview]

theorem exists_course (host : Host σ) (stages : Pipeline) (results : List (Option String × Value))
    (output : Value) (s : Scope) (w : World σ) :
    ∃ visits done, Course host stages ⟨results, output, s, w⟩ visits done
      ((runFrom host results output stages s).run w).1
      ((runFrom host results output stages s).run w).2 := by
  obtain ⟨visits, done, -, hcourse, -⟩ := exists_logged_course host stages results output s w
  exact ⟨visits, done, hcourse⟩

/-! ## What becomes of a value -/

/-- The log cannot show a value. -/
def Unwritable (host : Host σ) (v : Value) : Prop :=
  host.settings.logValues = true ∧ v.HasLongInteger

theorem bindValue_error_iff {name : Option String} {v : Value} :
    (∃ f, bindValue name v s = .error f) ↔
      ∃ taken, name = some taken ∧ s.contains taken = true := by
  constructor
  · rintro ⟨f, hf⟩
    obtain ⟨taken, hname, htaken, -⟩ := bindValue_eq_error hf
    exact ⟨taken, hname, htaken⟩
  · rintro ⟨taken, rfl, htaken⟩
    exact ⟨_, Scope.bind_eq_duplicate_iff.mpr htaken⟩

theorem previewOf_eq_error_iff {v : Value} {l : Limit} :
    previewOf host.settings v = .error l ↔ Unwritable host v ∧ l = .longInteger := by
  have hpreview : (Event.preview v).map some = .error l ↔ v.json = .error l := by
    rw [Event.preview]
    cases v.json <;> simp [Except.map]
  rw [previewOf, Unwritable]
  split
  · next hshown => rw [hpreview, v.json_eq_error_iff, and_iff_right hshown]
  · next hhidden => simp [hhidden]

/-- Of a value nothing becomes only if its name is taken, or it cannot be
shown. -/
theorem closing_eq_none_iff {v : Value} :
    closing host stage s (.ok v) = none ↔
      (∃ name, stage.name = some name ∧ s.contains name = true) ∨ Unwritable host v := by
  rw [← @bindValue_error_iff s stage.name v]
  cases hbound : bindValue stage.name v s with
  | error f => simp [closing, hbound]
  | ok inner =>
      cases hpreview : previewOf host.settings v with
      | error l =>
          have hunwritable := (previewOf_eq_error_iff.mp hpreview).1
          simp [closing, hbound, hpreview, hunwritable]
      | ok preview =>
          have hwritable : ¬Unwritable host v := by
            intro h
            rw [previewOf_eq_error_iff.mpr ⟨h, rfl⟩] at hpreview
            cases hpreview
          simp [closing, hbound, hpreview, hwritable]

theorem isComplete_iff {step : Visit} {v : Value} (h : step.result = .ok v) :
    step.IsComplete host ↔ ¬((∃ name, step.stage.name = some name ∧
      step.scope.contains name = true) ∨ Unwritable host v) := by
  rw [← closing_eq_none_iff, Visit.IsComplete, Visit.closing, h]
  unfold closing
  dsimp only
  split
  · simp
  · split <;> simp

theorem closing_ne_pipelineComplete (result : Except Signal Value) (status : String) (count : Int) :
    closing host stage s result ≠ some (.pipelineComplete status count) := by
  unfold closing
  split
  · simp
  · simp
  · split
    · simp
    · split <;> simp

/-- The end of a run is not logged of a stage. -/
theorem pipelineComplete_not_mem_log (visit : Visit) (status : String) (count : Int) :
    .pipelineComplete status count ∉ visit.log host := by
  intro h
  rcases List.mem_cons.mp h with h | h
  · cases h
  rcases List.mem_append.mp h with h | h
  · obtain ⟨⟨call, reply⟩, -, hreport⟩ := List.mem_filterMap.mp h
    cases hresult : reply.result <;> simp [Incident.eventOf, hresult] at hreport
  · exact closing_ne_pipelineComplete _ _ _ (Option.mem_toList.mp h)

/-- Every run logs of each stage that it starts, in order, that it starts it,
the calls that the database answered with a value, and what became of it; it
starts no stage after one that is not complete, and at its end it logs its
result, if it has one. A value that was bound is logged, unless it is to be
shown and cannot be. -/
theorem run_logged (host : Host σ) (stages : Pipeline) (s : Scope) (w : World σ) :
    ∃ visits done steps,
      Course host stages ⟨[], .null, s, w⟩ visits done ((run host stages s).run w).1
        ((run host stages s).run w).2 ∧
      Logged host stages w.events visits steps ((run host stages s).run w).1
        ((run host stages s).run w).2.events ∧
      (∀ step ∈ steps, ∀ v, step.result = .ok v →
        (step.IsComplete host ↔ ¬((∃ name, step.stage.name = some name ∧
          step.scope.contains name = true) ∨ Unwritable host v))) ∧
      ∀ status count, .pipelineComplete status count ∉ steps.flatMap (Visit.log host) := by
  obtain ⟨visits, done, steps, hcourse, hlogged⟩ := exists_logged_course host stages [] .null s w
  refine ⟨visits, done, steps, hcourse, hlogged, fun step _ v hresult => ?_, ?_⟩
  · exact isComplete_iff hresult
  · intro status count h
    obtain ⟨step, -, hstep⟩ := List.mem_flatMap.mp h
    exact pipelineComplete_not_mem_log step status count hstep

/-! ## A value that cannot be shown -/

/-- A host that has values shown, and nothing else. -/
def showing : Host Unit := { Host.bare with settings := { logValues := true } }

/-- The square of an integer, and then something that is not there. -/
def squareStage (n : Int) : Stage :=
  ⟨some "x", .variadic .multiply (.literal (.int n)) (.literal (.int n)) []⟩

def squareFirst (n : Int) : Pipeline :=
  [squareStage n, ⟨some "y", .get ⟨"missing", "missing", []⟩⟩]

theorem run_squareFirst {n : Int} (h : (Value.int (n * n)).HasLongInteger) :
    ((run showing (squareFirst n) (.ofFields [])).run { outside := () }).1 =
        ⟨⟨[("x", .int (n * n))], []⟩, .error (.limit .longInteger)⟩ ∧
      ((run showing (squareFirst n) (.ofFields [])).run { outside := () }).2.events =
        [.stepStart (some "x") "$multiply"] := by
  have hresult : ∀ w, ((squareStage n).value.watch showing (.ofFields []) w).1 =
      .ok (.int (n * n)) := fun _ => rfl
  have hincidents : ∀ w, ((squareStage n).value.watch showing (.ofFields []) w).2.incidents = [] :=
    fun _ => rfl
  have hbound : bindValue (squareStage n).name (.int (n * n)) (.ofFields []) =
      .ok ⟨[("x", .int (n * n))], []⟩ := rfl
  have hunwritable : Unwritable showing (.int (n * n)) := ⟨rfl, h⟩
  have hpreview : previewOf showing.settings (.int (n * n)) = .error .longInteger :=
    previewOf_eq_error_iff.mpr ⟨hunwritable, rfl⟩
  obtain ⟨started, -, hstart, hrun⟩ := @run_runFrom_cons _ showing [] .null (squareStage n)
    [⟨some "y", .get ⟨"missing", "missing", []⟩⟩] (.ofFields []) { outside := () }
  obtain ⟨w', -, hend, hconclude⟩ := @run_conclude_ok _ showing [] (squareStage n)
    [⟨some "y", .get ⟨"missing", "missing", []⟩⟩] (.ofFields []) (.int (n * n))
    ((squareStage n).value.watch showing (.ofFields []) started).2.world
  rw [if_neg (by decide), hresult, hconclude, hbound, hpreview] at hrun
  rw [closing_eq_none_iff.mpr (.inr hunwritable), Expr.watch_events, hincidents, hstart] at hend
  rw [run, squareFirst, hrun]
  exact ⟨rfl, hend⟩

/-- A one and zeros. -/
def withZeros (zeros : Nat) : Int := (Nat.pow 10 zeros : Nat)

theorem hasLongInteger_withZeros {zeros : Nat} (h : Limit.numeralDigits ≤ zeros + zeros) :
    (Value.int (withZeros zeros * withZeros zeros)).HasLongInteger := by
  have hsquare : (withZeros zeros * withZeros zeros).natAbs = Nat.pow 10 (zeros + zeros) := by
    rw [withZeros, Int.natAbs_mul, Int.natAbs_natCast]
    exact (Nat.pow_add 10 zeros zeros).symm
  have hle : ∀ {digits}, digits ≤ zeros + zeros → Nat.pow 10 digits ≤ Nat.pow 10 (zeros + zeros) :=
    fun h => Nat.pow_le_pow_right (Nat.succ_pos 9) h
  show Nat.pow 10 Limit.numeralDigits ≤ (withZeros zeros * withZeros zeros).natAbs
  rw [hsquare]
  exact hle h

/-- A value is obtained and bound, and yet nothing is logged of it after the
start: with the value to be shown, the run breaks off in a failure that is not
evaluation's own. -/
theorem squareFirst_unlogged :
    ((run showing (squareFirst (withZeros 3000)) (.ofFields [])).run { outside := () }).1 =
        ⟨⟨[("x", .int (withZeros 3000 * withZeros 3000))], []⟩, .error (.limit .longInteger)⟩ ∧
      ((run showing (squareFirst (withZeros 3000)) (.ofFields [])).run { outside := () }).2.events =
        [.stepStart (some "x") "$multiply"] ∧
      (Failure.limit .longInteger).isOwn = false := by
  have hdigits : Limit.numeralDigits ≤ 3000 + 3000 := by decide
  obtain ⟨hend, hevents⟩ := run_squareFirst (hasLongInteger_withZeros hdigits)
  exact ⟨hend, hevents, rfl⟩

end Pipeline

end Conduit
