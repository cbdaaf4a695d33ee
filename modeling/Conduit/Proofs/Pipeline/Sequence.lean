import Conduit.Pipeline
import Conduit.Proofs.Eval.Reads

/-!
# Pipelines one after the other

A pipeline may be cut anywhere but behind its last stage. To run the first
piece and then, if it was completed, the second one where the first has left
off comes to the same as to run the whole: the same scope, the same outcome
and the same calls of the database. Only the log tells the two apart, since
each run reports its own end there.

The proof compares what is left to run with the rest of the first piece
followed by a continuation, from worlds that differ in reported ends at most.
-/

namespace Conduit

/-- Whether an event is about something that happens within a run, and not
about its end. -/
def Event.isWithin : Event → Bool
  | .pipelineComplete _ _ => false
  | _ => true

/-- The end of a run that comes after one with the given results. -/
def RunEnd.behind (before : List (Option String × Value)) (ended : RunEnd) : RunEnd :=
  { ended with
    outcome := ended.outcome.map fun r => { r with results := before ++ r.results } }

namespace Pipeline

variable {σ : Type} {host : Host σ}

/-- The run of a second pipeline in the scope that a first one leaves behind,
if that was completed. The results are those of both. -/
def resume (host : Host σ) (second : Pipeline) (ended : RunEnd) : StateM (World σ) RunEnd :=
  match ended.outcome with
  | .ok ⟨.completed, _, results⟩ => RunEnd.behind results <$> run host second ended.scope
  | _ => pure ended

/-- The runs of two pipelines, the second only if the first was completed. -/
def runBoth (host : Host σ) (first second : Pipeline) (s : Scope) : StateM (World σ) RunEnd := do
  resume host second (← run host first s)

/-- Runs that cannot be told apart but by the ends that are reported. -/
structure SameRun (x y : StateM (World σ) RunEnd) : Prop where
  ended : ∀ w, (x.run w).1 = (y.run w).1
  calls : ∀ w, (x.run w).2.calls = (y.run w).2.calls
  outside : ∀ w, (x.run w).2.outside = (y.run w).2.outside
  cancelled : ∀ w, (x.run w).2.cancelled = (y.run w).2.cancelled
  events : ∀ w, (x.run w).2.events.filter Event.isWithin = (y.run w).2.events.filter Event.isWithin

end Pipeline

/-! ## Runs that look alike -/

namespace RunsAlike

variable {σ α : Type} {shown : Event → Bool} {x y : StateM (World σ) α}

theorem report (e : Event) :
    RunsAlike shown (Pipeline.report e : StateM (World σ) Unit) (Pipeline.report e) :=
  fun _ _ h => ⟨rfl, h.withEvent e⟩

/-- An event that is not shown can be reported on one side alone. -/
theorem reportLeft {e : Event} (he : shown e = false) (h : RunsAlike shown x y) :
    RunsAlike shown (Pipeline.report e >>= fun _ => x) y := by
  intro w v hwv
  refine h _ v ⟨hwv.outside, hwv.cancelled, hwv.calls, ?_⟩
  rw [← hwv.events]
  simp [List.filter_append, he]

theorem reportRight {e : Event} (he : shown e = false) (h : RunsAlike shown x y) :
    RunsAlike shown x (Pipeline.report e >>= fun _ => y) :=
  fun w v hwv => h w _ (hwv.trans (.hiddenEvent he v))

theorem noteBinding (name : Option String) (s : Scope) :
    RunsAlike shown (Pipeline.noteBinding name s : StateM (World σ) Unit)
      (Pipeline.noteBinding name s) := by
  cases name with
  | none => exact .pure ()
  | some name => exact fun _ _ h => ⟨rfl, h.withNotes _ _⟩

theorem evalStage (host : Host σ) (stage : Stage) (s : Scope) :
    RunsAlike shown (Pipeline.evalStage host stage s).run (Pipeline.evalStage host stage s).run :=
  Action.Alike.bind .checkCancelled fun _ => Expr.eval_alike_self _ _

end RunsAlike

namespace Pipeline

variable {σ : Type} {host : Host σ}

theorem sameRun {x y : StateM (World σ) RunEnd} (h : RunsAlike Event.isWithin x y) :
    SameRun x y where
  ended w := (h w w (.refl w)).1
  calls w := (h w w (.refl w)).2.calls
  outside w := (h w w (.refl w)).2.outside
  cancelled w := (h w w (.refl w)).2.cancelled
  events w := (h w w (.refl w)).2.events

/-! ## Runs with a continuation -/

/-- What is done with the end of a run so that it goes on with the stages of
`second`, when the results are those behind `before`. -/
structure Continues (host : Host σ) (before : List (Option String × Value)) (second : Pipeline)
    (k : RunEnd → StateM (World σ) RunEnd) : Prop where
  completed : ∀ s output results, RunsAlike Event.isWithin
    (runFrom host (before ++ results) output second s) (k ⟨s, .ok ⟨.completed, output, results⟩⟩)
  returned : ∀ s output results, k ⟨s, .ok ⟨.returned, output, results⟩⟩ =
    pure ⟨s, .ok ⟨.returned, output, before ++ results⟩⟩
  failed : ∀ s f, k ⟨s, .error f⟩ = pure ⟨s, .error f⟩

namespace Continues

variable {before : List (Option String × Value)} {second : Pipeline}
  {k : RunEnd → StateM (World σ) RunEnd}

/-- A run that failed does not go on. -/
theorem fail (hk : Continues host before second k) (s : Scope) (f : Failure) :
    RunsAlike Event.isWithin (pure ⟨s, .error f⟩) (pure ⟨s, .error f⟩ >>= k) := by
  rw [pure_bind, hk.failed]
  exact .pure _

/-- Nor does one that returned. -/
theorem finish_returned (hk : Continues host before second k) (s : Scope) (output : Value)
    (results : List (Option String × Value)) :
    RunsAlike Event.isWithin (finish s .returned output (before ++ results))
      (finish s .returned output results >>= k) := by
  unfold finish
  rw [bind_assoc]
  refine .reportLeft rfl (.reportRight rfl ?_)
  rw [pure_bind, hk.returned]
  exact .pure _

/-- A run of all stages is a run of the first of them that is continued. -/
theorem runFrom (hk : Continues host before second k) (first : Pipeline)
    (results : List (Option String × Value)) (output : Value) (s : Scope) :
    RunsAlike Event.isWithin (runFrom host (before ++ results) output (first ++ second) s)
      (Pipeline.runFrom host results output first s >>= k) := by
  -- Whatever ends the run within the first piece ends it on both sides.
  induction first generalizing results output s with
  | nil => exact .reportRight rfl (hk.completed s output results)
  | cons stage rest ih =>
      rw [List.cons_append, Pipeline.runFrom, Pipeline.runFrom, bind_assoc]
      refine .bind (.report _) fun _ => ?_
      rw [bind_assoc]
      refine .bind (.evalStage host stage s) fun ended => ?_
      rcases ended with (f | v) | v <;> dsimp only
      · cases f.kind? with
        | none => exact hk.fail s f
        | some kind =>
            rw [bind_assoc]
            exact .bind (.report _) fun _ => hk.fail s f
      · rw [bind_assoc]
        exact .bind (.report _) fun _ => hk.finish_returned s v results
      · rw [bind_assoc]
        refine .bind (.noteBinding _ s) fun _ => ?_
        cases bindValue stage.name v s with
        | error f => exact hk.fail s f
        | ok inner =>
            dsimp only
            cases previewOf host.settings v with
            | error l => exact hk.fail inner _
            | ok preview =>
                dsimp only
                rw [bind_assoc, List.append_assoc]
                exact .bind (.report _) fun _ => ih _ v inner

end Continues

/-! ## Two pipelines -/

/-- The results so far are only carried along. -/
theorem continues_behind (before : List (Option String × Value)) :
    Continues host before [] fun ended => pure (ended.behind before) where
  completed _ _ _ := .reportLeft rfl (.pure _)
  returned _ _ _ := rfl
  failed _ _ := rfl

/-- A completed run goes on with a second pipeline that has stages. -/
theorem continues_resume {second : Pipeline} (h : second ≠ []) :
    Continues host [] second (resume host second) where
  completed s output results := by
    obtain ⟨stage, rest, rfl⟩ := List.exists_cons_of_ne_nil h
    have hk : Continues host results [] fun ended => pure (ended.behind results) :=
      continues_behind results
    have hrun := hk.runFrom (stage :: rest) [] .null s
    rw [List.append_nil, List.append_nil] at hrun
    -- With a stage still to come, the output so far does not matter.
    exact hrun
  returned _ _ _ := rfl
  failed _ _ := rfl

/-- To run one pipeline and then another one, which has stages, is to run
them as one. -/
theorem run_append {second : Pipeline} (h : second ≠ []) (first : Pipeline) (host : Host σ)
    (s : Scope) : SameRun (run host (first ++ second) s) (runBoth host first second s) :=
  sameRun ((continues_resume h).runFrom first [] .null s)

/-- The insertion of a text, and the return of what was inserted. -/
def keepText : Pipeline :=
  [⟨some "kept", .dbInsert "notes" (.fields [("text", .get ⟨"text", "text", []⟩)])⟩]

def returnKept : Pipeline := [⟨none, .earlyReturn (.expr (.get ⟨"kept", "kept", []⟩))⟩]

theorem run_append_keepText :
    returnKept ≠ [] ∧
      SameRun (run Expr.storing (keepText ++ returnKept) (.ofFields [("text", .str "Hello")]))
        (runBoth Expr.storing keepText returnKept (.ofFields [("text", .str "Hello")])) := by
  have h : returnKept ≠ [] := List.cons_ne_nil _ _
  exact ⟨h, run_append h keepText Expr.storing _⟩

end Pipeline

end Conduit
