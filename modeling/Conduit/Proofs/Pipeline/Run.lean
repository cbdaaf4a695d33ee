import Conduit.Pipeline.Check
import Conduit.Proofs.Eval.Parts

/-!
# What runs of pipelines note

A run evaluates its stages in order and binds the named ones. A condition
on notes holds of all that a run notes if there is an invariant of the
scope and the stages still to come from which it follows for one stage,
its evaluation and the binding of its name, and which one stage hands on
to the next. The induction over the stages is done here, for any such
invariant.

Nothing is decided by notes, but they tell what is: the name of a stage is
noted where it clashes exactly if the run fails to bind it (`runFrom_notesTell`).
-/

namespace Conduit

/-- The run came to its last stage: it neither returned nor failed. -/
def RunEnd.IsCompleted (ended : RunEnd) : Prop :=
  ∃ output results, ended.outcome = .ok ⟨.completed, output, results⟩

theorem not_isCompleted_error {s : Scope} {f : Failure} :
    ¬(⟨s, .error f⟩ : RunEnd).IsCompleted := by
  rintro ⟨_, _, h⟩
  cases h

theorem not_isCompleted_returned {s : Scope} {output : Value}
    {results : List (Option String × Value)} :
    ¬(⟨s, .ok ⟨.returned, output, results⟩⟩ : RunEnd).IsCompleted := by
  rintro ⟨_, _, h⟩
  cases h

namespace Pipeline

open Action

variable {σ α β : Type} {Good : Note → Prop} {host : Host σ}

/-! ## Actions of a run -/

/-- From every world, an action of a run adds only good notes and comes to a
result as described. -/
def Notes (Good : Note → Prop) (post : α → Prop) (act : StateM (World σ) α) : Prop :=
  ∀ w, (∀ n ∈ (act.run w).2.notes, n ∈ w.notes ∨ Good n) ∧ post (act.run w).1

theorem Notes.pure {post : α → Prop} {a : α} (h : post a) :
    Notes Good post (pure a : StateM (World σ) α) :=
  fun _ => ⟨fun _ hn => .inl hn, h⟩

theorem Notes.bind {mid : α → Prop} {post : β → Prop} {x : StateM (World σ) α}
    {f : α → StateM (World σ) β} (hx : Notes Good mid x) (hf : ∀ a, mid a → Notes Good post (f a)) :
    Notes Good post (x >>= f) := by
  intro w
  obtain ⟨hx₁, hx₂⟩ := hx w
  rw [StateT.run_bind]
  rcases h : x.run w with ⟨a, w'⟩
  rw [h] at hx₁ hx₂
  obtain ⟨hf₁, hf₂⟩ := hf a hx₂ w'
  refine ⟨fun n hn => ?_, hf₂⟩
  rcases hf₁ n hn with h | h
  · exact hx₁ n h
  · exact .inr h

theorem Notes.report (e : Event) :
    Notes Good (fun _ => True) (Pipeline.report e : StateM (World σ) Unit) :=
  fun _ => ⟨fun _ hn => .inl hn, trivial⟩

theorem evalStage_meets {c : Contract} {stage : Stage} {s : Scope}
    (h : Meets c (stage.value.eval host s)) : Meets c (evalStage host stage s) :=
  .bind .checkCancelled fun _ => h

/-- The evaluation of a stage adds what its contract allows. -/
theorem Notes.of_meets {closed} {act : Action σ α} (h : Meets (Contract.ofNotes Good closed) act) :
    Notes Good (fun _ => True) act.run := by
  intro w
  obtain ⟨new, hn, ha⟩ := h w
  refine ⟨fun n hmem => ?_, trivial⟩
  rw [hn] at hmem
  rcases List.mem_append.mp hmem with hnew | hold
  · exact .inr (ha n hnew)
  · exact .inl hold

theorem Notes.finish {post : RunEnd → Prop} {s : Scope} {status : RunStatus} {output : Value}
    {results : List (Option String × Value)} (h : post ⟨s, .ok ⟨status, output, results⟩⟩) :
    Notes Good post (Pipeline.finish s status output results : StateM (World σ) RunEnd) :=
  .bind (.report _) fun _ _ => .pure h

theorem Notes.noteBinding {name : Option String} {s : Scope}
    (h : ∀ bound, name = some bound → Good (.binding bound s)) :
    Notes Good (fun _ => True) (Pipeline.noteBinding name s : StateM (World σ) Unit) := by
  cases name with
  | none => exact .pure trivial
  | some bound =>
      intro w
      refine ⟨fun n hn => ?_, trivial⟩
      rcases List.mem_cons.mp hn with rfl | hold
      · exact .inr (h bound rfl)
      · exact .inl hold

/-! ## Runs -/

/-- A condition on the stages that are still to run and the scope that they
start in, from which all that they note is good. -/
structure Invariant (host : Host σ) (Good : Note → Prop) where
  holds : List Stage → Scope → Prop
  value : ∀ {stage rest s}, holds (stage :: rest) s →
    Notes Good (fun _ => True) (evalStage host stage s).run
  binding : ∀ {stage rest s name}, holds (stage :: rest) s → stage.name = some name →
    Good (.binding name s)
  next : ∀ {stage rest s t v}, holds (stage :: rest) s → bindValue stage.name v s = .ok t →
    holds rest t

/-- All that a run notes is good, and at its end the invariant holds of the
stages that come after it. -/
theorem Invariant.runFrom (inv : Invariant host Good) {stages more : List Stage} {s : Scope}
    (h : inv.holds (stages ++ more) s) (results : List (Option String × Value)) (output : Value) :
    Notes Good (fun ended => ended.IsCompleted → inv.holds more ended.scope)
      (Pipeline.runFrom host results output stages s) := by
  induction stages generalizing s results output with
  | nil => exact .finish fun _ => h
  | cons stage rest ih =>
      refine .bind (.report _) fun _ _ => ?_
      refine .bind (inv.value h) fun ended _ => ?_
      rcases ended with (f | v) | v
      · dsimp only
        split
        · exact .bind (.report _) fun _ _ => .pure fun hc => absurd hc not_isCompleted_error
        · exact .pure fun hc => absurd hc not_isCompleted_error
      · exact .bind (.report _) fun _ _ => .finish fun hc => absurd hc not_isCompleted_returned
      · refine .bind (.noteBinding fun _ => inv.binding h) fun _ _ => ?_
        split
        · exact .pure fun hc => absurd hc not_isCompleted_error
        · next inner hinner =>
            split
            · exact .pure fun hc => absurd hc not_isCompleted_error
            · exact .bind (.report _) fun _ _ => ih (inv.next h hinner) _ _

theorem Invariant.run (inv : Invariant host Good) {stages more : List Stage} {s : Scope}
    (h : inv.holds (stages ++ more) s) :
    Notes Good (fun ended => ended.IsCompleted → inv.holds more ended.scope)
      (Pipeline.run host stages s) :=
  inv.runFrom h [] .null

/-! ## What notes tell -/

/-- What is made of the result of a stage. -/
def conclude (host : Host σ) (results : List (Option String × Value)) (stage : Stage)
    (rest : Pipeline) (s : Scope) : Except Signal Value → StateM (World σ) RunEnd
  | .error (.returned v) => do
    report (.earlyReturn stage.name)
    finish s .returned v results
  | .error (.failed f) => do
    if let some kind := f.kind? then report (.error stage.name kind.name f.message)
    pure ⟨s, .error f⟩
  | .ok v => do
    noteBinding stage.name s
    match bindValue stage.name v s with
    | .error f => pure ⟨s, .error f⟩
    | .ok inner =>
      match previewOf host.settings v with
      | .error l => pure ⟨inner, .error (.limit l)⟩
      | .ok preview =>
        report (.stepComplete stage.name preview)
        runFrom host (results ++ [(stage.name, v)]) v rest inner

variable {stages rest : Pipeline} {new earlier : List Note} {ended : RunEnd}

/-- Noted are only names that can be bound. -/
def CanBind (notes : List Note) : Prop :=
  ∀ name s, .binding name s ∈ notes → s.contains name = false

/-- What the bindings that were noted tell of the end of a run. A database can
claim that a name is bound twice, so a stage may fail like that as well. -/
structure NotesTell (host : Host σ) (stages : Pipeline) (new : List Note) (ended : RunEnd) :
    Prop where
  clash : ∀ {name s}, .binding name s ∈ new → s.contains name = true →
    ended.outcome = .error (.duplicateBinding name)
  noted : ∀ {name}, ended.outcome = .error (.duplicateBinding name) →
    (∃ s, .binding name s ∈ new ∧ s.contains name = true) ∨
      ∃ stage ∈ stages, ∃ s w, ((evalStage host stage s).run.run w).1 =
        .error (.failed (.duplicateBinding name))

theorem NotesTell.after (h : NotesTell host rest new ended) (hearlier : CanBind earlier)
    (hrest : rest ⊆ stages) : NotesTell host stages (new ++ earlier) ended := by
  refine ⟨fun hmem hclash => ?_, fun hend => ?_⟩
  · rcases List.mem_append.mp hmem with hnew | hold
    · exact h.clash hnew hclash
    · rw [hearlier _ _ hold] at hclash
      cases hclash
  · rcases h.noted hend with ⟨s, hs, hclash⟩ | ⟨stage, hstage, hfails⟩
    · exact .inl ⟨s, List.mem_append_left _ hs, hclash⟩
    · exact .inr ⟨stage, hrest hstage, hfails⟩

/-- An end in another way, with nothing noted about it. -/
theorem NotesTell.of_other (h : ∀ name, ended.outcome ≠ .error (.duplicateBinding name)) :
    NotesTell host stages [] ended :=
  ⟨fun hmem => (by cases hmem), fun hend => absurd hend (h _)⟩

/-- The evaluation of a stage notes nothing about its own name. -/
theorem canBind_evalStage (host : Host σ) (stage : Stage) (s : Scope) (w : World σ) :
    ∃ new, ((evalStage host stage s).run.run w).2.notes = new ++ w.notes ∧ CanBind new := by
  let Quiet : Note → Prop := fun n => ∀ name t, n ≠ .binding name t
  let c : Contract := .ofNotes Quiet fun _ _ _ h => by cases h
  have hparts : ∀ p ∈ Expr.parts [] stage.value, c.AllowsPart host p := by
    intro p _
    exact Contract.ofNotes_allowsPart (fun _ _ _ _ _ _ h => by cases h)
      (fun _ _ _ _ _ _ _ h => by cases h) fun _ _ _ _ h => by cases h
  have hfilters : c.AllowsFilters := Contract.ofNotes_allowsFilters fun _ _ _ h => by cases h
  have hvalue : Meets c (stage.value.eval host s) :=
    Expr.eval_meets hfilters stage.value s hparts fun _ hname => by cases hname
  obtain ⟨new, hnotes, hquiet⟩ := evalStage_meets hvalue w
  exact ⟨new, hnotes, fun name t hmem => absurd rfl (hquiet _ hmem name t)⟩

/-- A value fails to be bound only if its name is taken. -/
theorem bindValue_eq_error {name : Option String} {v : Value} {s : Scope} {f : Failure}
    (h : bindValue name v s = .error f) :
    ∃ taken, name = some taken ∧ s.contains taken = true ∧ f = .duplicateBinding taken := by
  cases name with
  | none => cases h
  | some name =>
      refine ⟨name, rfl, ?_⟩
      replace h : s.bind name v = .error f := h
      unfold Scope.bind at h
      split at h
      · next htaken =>
          cases h
          exact ⟨htaken, rfl⟩
      · cases h

/-- The name of a value that is bound is none that clashes. -/
theorem canBind_of_bindValue {name : Option String} {v : Value} {s t : Scope}
    (h : bindValue name v s = .ok t) : CanBind (name.map (Note.binding · s)).toList := by
  intro taken scope hmem
  obtain ⟨taken, rfl, heq⟩ := Option.map_eq_some_iff.mp (Option.mem_toList.mp hmem)
  cases heq
  by_contra hcontains
  have hclash : s.bind taken v = _ :=
    Scope.bind_eq_duplicate_iff.mpr (Bool.not_eq_false _ ▸ hcontains)
  cases hclash.symm.trans h

theorem notes_noteBinding (name : Option String) (s : Scope) (w : World σ) :
    ((noteBinding name s).run w).2.notes = (name.map (Note.binding · s)).toList ++ w.notes := by
  cases name <;> rfl

/-- A value whose name clashes is the end of the run, and so the end of its
notes. -/
theorem conclude_notesTell {stage : Stage}
    (hrest : ∀ results output s w, ∃ new,
      ((Pipeline.runFrom host results output rest s).run w).2.notes = new ++ w.notes ∧
      NotesTell host rest new ((Pipeline.runFrom host results output rest s).run w).1)
    (results : List (Option String × Value)) (s : Scope) (result : Except Signal Value)
    (hresult : ∀ name, result = .error (.failed (.duplicateBinding name)) →
      ∃ w, ((evalStage host stage s).run.run w).1 = result) (w : World σ) :
    ∃ new, ((conclude host results stage rest s result).run w).2.notes = new ++ w.notes ∧
      NotesTell host (stage :: rest) new ((conclude host results stage rest s result).run w).1 := by
  rcases result with (f | v) | v
  · have hrun : ((conclude host results stage rest s (.error (.failed f))).run w).1.outcome =
          .error f ∧
        ((conclude host results stage rest s (.error (.failed f))).run w).2.notes = w.notes := by
      unfold conclude
      dsimp only
      split <;> exact ⟨rfl, rfl⟩
    refine ⟨[], hrun.2, ⟨fun hmem => (by cases hmem), fun {name} hend => ?_⟩⟩
    obtain rfl : f = .duplicateBinding name := Except.error.inj (hrun.1.symm.trans hend)
    obtain ⟨w', hw'⟩ := hresult name rfl
    exact .inr ⟨stage, List.mem_cons_self, s, w', hw'⟩
  · exact ⟨[], rfl, .of_other fun _ h => by cases h⟩
  · have hnotes := notes_noteBinding stage.name s w
    unfold conclude
    dsimp only
    rw [StateT.run_bind]
    rcases hnote : (noteBinding stage.name s).run w with ⟨u, noted⟩
    rw [hnote] at hnotes
    cases hbound : bindValue stage.name v s with
    | error f =>
        obtain ⟨taken, hname, hclash, rfl⟩ := bindValue_eq_error hbound
        rw [hname] at hnotes
        refine ⟨[.binding taken s], hnotes, ⟨fun {name t} hmem _ => ?_, fun hend => .inl ?_⟩⟩
        · cases List.mem_singleton.mp hmem
          rfl
        · cases hend
          exact ⟨s, List.mem_cons_self, hclash⟩
    | ok inner =>
        have hcan := canBind_of_bindValue hbound
        dsimp only
        cases previewOf host.settings v with
        | error l =>
            refine ⟨_, hnotes, ?_⟩
            have hother : NotesTell host rest [] ⟨inner, .error (.limit l)⟩ :=
              .of_other fun _ h => by cases h
            exact hother.after hcan (List.subset_cons_self _ _)
        | ok preview =>
            obtain ⟨new, hnew, htells⟩ := hrest (results ++ [(stage.name, v)]) v inner
              { noted with events := noted.events ++ [.stepComplete stage.name preview] }
            refine ⟨new ++ _, ?_, htells.after hcan (List.subset_cons_self _ _)⟩
            rw [List.append_assoc, ← hnotes]
            exact hnew

/-- The notes of a run tell whether it fails to bind a name. -/
theorem runFrom_notesTell (host : Host σ) (stages : Pipeline)
    (results : List (Option String × Value)) (output : Value) (s : Scope) (w : World σ) :
    ∃ new, ((Pipeline.runFrom host results output stages s).run w).2.notes = new ++ w.notes ∧
      NotesTell host stages new ((Pipeline.runFrom host results output stages s).run w).1 := by
  induction stages generalizing results output s w with
  | nil => exact ⟨[], rfl, .of_other fun _ h => by cases h⟩
  | cons stage rest ih =>
      let started : World σ :=
        { w with events := w.events ++ [.stepStart stage.name stage.value.operator.name] }
      obtain ⟨earlier, hnotes, hearlier⟩ := canBind_evalStage host stage s started
      obtain ⟨new, hnew, htells⟩ := conclude_notesTell ih results s
        ((evalStage host stage s).run.run started).1 (fun _ _ => ⟨started, rfl⟩)
        ((evalStage host stage s).run.run started).2
      refine ⟨new ++ earlier, ?_, htells.after hearlier fun _ h => h⟩
      rw [List.append_assoc]
      exact hnew.trans (congrArg (new ++ ·) hnotes)

end Pipeline

end Conduit
