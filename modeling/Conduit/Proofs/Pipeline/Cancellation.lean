import Conduit.Proofs.Pipeline.Log

/-!
# Cancelled runs

A run may be cancelled before it begins, or by someone else while the database
works for it, and then it stays cancelled. From that moment on no call is made,
and no further stage is evaluated. The stage that is being evaluated may still
come to its own end, as long as no call is due in it: with a return, with
another failure, or, if it is the last one, with the value that the run is then
completed with. In all other cases the run fails as cancelled.
-/

namespace Conduit

namespace Incident

variable {cancelled : Bool} {i : Incident} {before after : List Incident}

/-- A call that was due and was not made was refused. -/
theorem attempt?_eq_none (hanswer : i.answer? = none) (hrefused : i.isRefused = false) :
    i.attempt? = none := by
  induction i with
  | within shield inner ih => exact ih hanswer hrefused
  | raised signal => rfl
  | refused call => cases hrefused
  | answered call reply => cases hanswer

/-- After the incident that cancels the run no call is made. -/
theorem Obey.answer?_after (h : Obey cancelled (before ++ i :: after)) (hi : i.cancels = true) :
    ∀ j ∈ after, j.answer? = none := by
  induction before generalizing cancelled with
  | nil =>
      have hafter : Obey (cancelled || i.cancels) after := h.2
      rw [hi, Bool.or_true] at hafter
      exact hafter.answer?_eq_none
  | cons k rest ih => exact ih h.2

end Incident

/-- Whether the run was cancelled during a visit. -/
def Visit.cancels (visit : Visit) : Bool := visit.incidents.any Incident.cancels

namespace Pipeline

variable {σ : Type} {host : Host σ} {stages : Pipeline} {p : Progress σ} {visits : List Visit}
  {done : List (Option String × Value)} {ended : RunEnd}

/-- The calls that were made while stages were visited. -/
def callsOf (visits : List Visit) : List Call :=
  visits.flatMap fun visit => Incident.calls visit.incidents

namespace Evaluates

variable {stage : Stage} {s : Scope} {w w' : World σ} {visit : Visit}

theorem going (h : Evaluates host stage s w visit w') : w.cancelled = false := by
  cases h
  assumption

/-- What happens during a visit tells what it ends with. -/
theorem tells (h : Evaluates host stage s w visit w') :
    Tells visit.incidents w (visit.result, w') := by
  cases h with
  | @intro started ended going before after =>
      obtain ⟨hresult, hworld⟩ := Expr.watch_eq host stage.value s started
      have htells := Expr.watch_tells host stage.value s started
      rw [hworld] at after
      refine ⟨?_, ?_, ?_, ?_⟩
      · rw [after.calls, htells.calls, before.calls]
      · rw [after.cancelled, htells.cancelled, before.cancelled]
      · rw [← before.cancelled]
        exact htells.obeys
      · rw [hresult]
        exact htells.leads

/-- Once the run is cancelled during a visit, no call is made in it, and none is
due unless the visit ends as cancelled. -/
theorem after_cancel {before after : List Incident} {i : Incident}
    (h : Evaluates host stage s w visit w') (hsplit : visit.incidents = before ++ i :: after)
    (hi : i.cancels = true) :
    w'.cancelled = true ∧ (∀ j ∈ after, j.answer? = none) ∧
      ((∀ j ∈ after, j.attempt? = none) ∨ visit.result = .error (.failed .cancelled)) := by
  have htells := h.tells
  rw [hsplit] at htells
  have hanswer := htells.obeys.answer?_after hi
  refine ⟨?_, hanswer, ?_⟩
  · have hcancelled := htells.cancelled
    rw [List.any_append, List.any_cons, hi] at hcancelled
    simpa using hcancelled
  · by_cases hrefused : ∃ j ∈ after, j.isRefused = true
    · obtain ⟨j, hj, hrefused⟩ := hrefused
      have hmem : j ∈ before ++ i :: after := by simp [hj]
      have hescape := Incident.escape?_refused hrefused
      exact .inr (Signal.eq_error_of_of? (htells.leads.eq_of_mem hmem hescape))
    · left
      intro j hj
      have hj' : j.isRefused = false := by
        cases hb : j.isRefused with
        | false => rfl
        | true => exact absurd ⟨j, hj, hb⟩ hrefused
      exact Incident.attempt?_eq_none (hanswer j hj) hj'

end Evaluates

/-! ## Courses of cancelled runs -/

/-- Calls are made in visits only. -/
theorem Course.calls_eq {w : World σ} (h : Course host stages p visits done ended w) :
    w.calls = p.world.calls ++ callsOf visits := by
  induction h with
  | completed after | refused _ after =>
      rw [after.calls, callsOf, List.flatMap_nil, List.append_nil]
  | returned evaluated _ | failed evaluated _ | unbound evaluated _ _ | unwritten evaluated _ _ _ =>
      rw [evaluated.tells.calls, callsOf, List.flatMap_singleton]
  | next evaluated _ _ _ _ ih =>
      rw [ih, evaluated.tells.calls, List.append_assoc]
      rfl

/-- And the run is cancelled in visits only, if it was not before. -/
theorem Course.cancelled_eq {w : World σ} (h : Course host stages p visits done ended w) :
    w.cancelled = (p.world.cancelled || visits.any Visit.cancels) := by
  induction h with
  | completed after | refused _ after => rw [after.cancelled, List.any_nil, Bool.or_false]
  | returned evaluated _ | failed evaluated _ | unbound evaluated _ _ | unwritten evaluated _ _ _ =>
      rw [evaluated.tells.cancelled, List.any_cons, List.any_nil, Bool.or_false]
      rfl
  | next evaluated _ _ _ _ ih =>
      rw [ih, evaluated.tells.cancelled, List.any_cons, Bool.or_assoc]
      rfl

/-- A run that is cancelled already visits no stage. -/
theorem Course.of_cancelled {w : World σ} (h : Course host stages p visits done ended w)
    (hc : p.world.cancelled = true) :
    visits = [] ∧ (ended.outcome = .error .cancelled ∨
      stages = [] ∧ ended.outcome = .ok ⟨.completed, p.output, p.results⟩) := by
  cases h with
  | completed after => exact ⟨rfl, .inr ⟨rfl, rfl⟩⟩
  | refused _ _ => exact ⟨rfl, .inl rfl⟩
  | returned evaluated _ | failed evaluated _ | unbound evaluated _ _ | unwritten evaluated _ _ _
  | next evaluated _ _ _ _ =>
      rw [evaluated.going] at hc
      cases hc

end Pipeline

/-- A visit brings the run to its end by itself: with the value of the last
stage, with a return, or with a failure that is no cancellation. -/
inductive Visit.Ends {σ : Type} (host : Host σ) (isLast : Prop) (visit : Visit) :
    Except Failure RunResult → Prop where
  | completed {v : Value} {results : List (Option String × Value)} (last : isLast)
    (result : visit.result = .ok v) : Ends host isLast visit (.ok ⟨.completed, v, results⟩)
  | returned {v : Value} {results : List (Option String × Value)}
    (result : visit.result = .error (.returned v)) :
    Ends host isLast visit (.ok ⟨.returned, v, results⟩)
  | failed {f : Failure} (result : visit.result = .error (.failed f)) (other : f ≠ .cancelled) :
    Ends host isLast visit (.error f)
  | unbound {name : String} {v : Value} (result : visit.result = .ok v)
    (named : visit.stage.name = some name) (taken : visit.scope.contains name = true) :
    Ends host isLast visit (.error (.duplicateBinding name))
  | unwritten {v : Value} {l : Limit} (result : visit.result = .ok v)
    (preview : Pipeline.previewOf host.settings v = .error l) :
    Ends host isLast visit (.error (.limit l))

theorem Visit.Ends.mono {σ : Type} {host : Host σ} {isLast isLast' : Prop} {visit : Visit}
    {outcome : Except Failure RunResult} (h : visit.Ends host isLast outcome)
    (himp : isLast → isLast') : visit.Ends host isLast' outcome := by
  cases h with
  | completed last result => exact .completed (himp last) result
  | returned result => exact .returned result
  | failed result other => exact .failed result other
  | unbound result named taken => exact .unbound result named taken
  | unwritten result preview => exact .unwritten result preview

/-- What becomes of a run that is cancelled during a visit, with `after` the
incidents that are still to come in it and `later` the visits after it. -/
structure Visit.Halts {σ : Type} (host : Host σ) (isLast : Prop) (visit : Visit)
    (after : List Incident) (later : List Visit) (outcome : Except Failure RunResult) : Prop where
  unvisited : later = []
  uncalled : ∀ i ∈ after, i.answer? = none
  /-- The run fails as cancelled, unless the visit brings it to its end and no
  call is due in it any more. -/
  ends : outcome = .error .cancelled ∨
    (∀ i ∈ after, i.attempt? = none) ∧ visit.Ends host isLast outcome

namespace Pipeline

variable {σ : Type} {host : Host σ} {stages : Pipeline} {p : Progress σ} {visits : List Visit}
  {done : List (Option String × Value)} {ended : RunEnd} {w : World σ}

theorem Evaluates.halts {stage : Stage} {s : Scope} {w w' : World σ} {visit : Visit}
    {before after : List Incident} {i : Incident} {isLast : Prop}
    {outcome : Except Failure RunResult} (h : Evaluates host stage s w visit w')
    (hsplit : visit.incidents = before ++ i :: after) (hi : i.cancels = true)
    (hcancelled : visit.result = .error (.failed .cancelled) → outcome = .error .cancelled)
    (hends : outcome = .error .cancelled ∨ visit.Ends host isLast outcome) :
    visit.Halts host isLast after [] outcome := by
  obtain ⟨-, hanswer, hattempt⟩ := h.after_cancel hsplit hi
  refine ⟨rfl, hanswer, ?_⟩
  rcases hattempt with hattempt | hresult
  · exact hends.imp_right fun hself => ⟨hattempt, hself⟩
  · exact .inl (hcancelled hresult)

theorem eq_of_single {visit visit' : Visit} {earlier later : List Visit}
    (h : [visit'] = earlier ++ visit :: later) : visit' = visit ∧ later = [] := by
  cases earlier with
  | nil =>
      cases h
      exact ⟨rfl, rfl⟩
  | cons e es => simp at h

/-- A run that is cancelled during a visit comes to no call and no visit any
more. -/
theorem Course.halts (h : Course host stages p visits done ended w)
    {earlier later : List Visit} {visit : Visit} {before after : List Incident} {i : Incident}
    (hvisits : visits = earlier ++ visit :: later)
    (hsplit : visit.incidents = before ++ i :: after) (hi : i.cancels = true) :
    visit.Halts host (earlier.length + 1 = stages.length) after later ended.outcome := by
  induction h generalizing earlier with
  | completed _ | refused _ _ => simp at hvisits
  | returned evaluated result =>
      obtain ⟨rfl, rfl⟩ := eq_of_single hvisits
      refine evaluated.halts hsplit hi ?_ (.inr (.returned result))
      rw [result]
      rintro ⟨⟩
  | @failed p stage rest w visit f evaluated result =>
      obtain ⟨rfl, rfl⟩ := eq_of_single hvisits
      refine evaluated.halts hsplit hi ?_ ?_
      · rw [result]
        rintro ⟨⟩
        rfl
      · by_cases hf : f = .cancelled
        · exact .inl (congrArg Except.error hf)
        · exact .inr (.failed result hf)
  | unbound evaluated result bound =>
      obtain ⟨rfl, rfl⟩ := eq_of_single hvisits
      obtain ⟨name, hname, htaken, rfl⟩ := bindValue_eq_error bound
      obtain ⟨rfl, hscope⟩ := evaluated.visit_eq
      refine evaluated.halts hsplit hi ?_ (.inr (.unbound result hname (hscope ▸ htaken)))
      rw [result]
      rintro ⟨⟩
  | unwritten evaluated result bound preview =>
      obtain ⟨rfl, rfl⟩ := eq_of_single hvisits
      refine evaluated.halts hsplit hi ?_ (.inr (.unwritten result preview))
      rw [result]
      rintro ⟨⟩
  | @next p stage rest visit' v inner preview between w visits done ended evaluated result bound
      shown onwards ih =>
      cases earlier with
      | nil =>
          -- The run is cancelled before the stages that are left.
          obtain ⟨rfl, rfl⟩ := List.cons.inj hvisits
          obtain ⟨hbetween, -, -⟩ := evaluated.after_cancel hsplit hi
          obtain ⟨rfl, hend⟩ := onwards.of_cancelled hbetween
          refine evaluated.halts hsplit hi ?_ ?_
          · rw [result]
            rintro ⟨⟩
          · refine hend.imp_right fun ⟨hrest, hcompleted⟩ => ?_
            rw [hcompleted, hrest]
            exact .completed rfl result
      | cons e es =>
          obtain ⟨rfl, hrest⟩ := List.cons.inj hvisits
          obtain ⟨hunvisited, huncalled, hends⟩ := ih hrest
          refine ⟨hunvisited, huncalled, hends.imp_right fun ⟨hattempt, hself⟩ => ?_⟩
          exact ⟨hattempt, hself.mono fun hlast => congrArg (· + 1) hlast⟩

/-- What holds of a run that may be cancelled before it begins, or while the
database works on any of its calls. -/
structure StopsWhenCancelled (host : Host σ) (stages : Pipeline) (w : World σ)
    (visits : List Visit) (ended : RunEnd) (w' : World σ) : Prop where
  /-- All calls are made in visits. -/
  calls : w'.calls = w.calls ++ callsOf visits
  /-- All that cancels the run is seen. -/
  cancelled : w'.cancelled = (w.cancelled || visits.any Visit.cancels)
  before : w.cancelled = true → visits = [] ∧ ended.outcome = .error .cancelled
  during : ∀ {earlier visit later before i after}, visits = earlier ++ visit :: later →
    visit.incidents = before ++ i :: after → i.cancels = true →
    visit.Halts host (earlier.length + 1 = stages.length) after later ended.outcome

/-- A run of a pipeline that has stages makes no call and visits no stage once
it is cancelled, and it fails as cancelled unless the visit that goes on comes
to an end of its own. -/
theorem run_cancelled {stages : Pipeline} (h : stages ≠ []) (host : Host σ) (s : Scope)
    (w : World σ) :
    ∃ visits done,
      Course host stages ⟨[], .null, s, w⟩ visits done ((run host stages s).run w).1
        ((run host stages s).run w).2 ∧
      StopsWhenCancelled host stages w visits ((run host stages s).run w).1
        ((run host stages s).run w).2 := by
  obtain ⟨visits, done, hcourse⟩ := exists_course host stages [] .null s w
  refine ⟨visits, done, hcourse, hcourse.calls_eq, hcourse.cancelled_eq, fun hc => ?_, ?_⟩
  · obtain ⟨hvisits, hend⟩ := hcourse.of_cancelled hc
    exact ⟨hvisits, hend.resolve_right fun hnil => h hnil.1⟩
  · intro earlier visit later before i after hvisits hsplit hi
    exact hcourse.halts hvisits hsplit hi

/-- A database that has its run cancelled at each call. -/
def cancelling : Host Unit :=
  { Host.bare with database := some ⟨fun _ u => (⟨.ok .null, true⟩, u)⟩ }

/-- The same document, inserted twice. -/
def insertTwice : Pipeline :=
  [⟨none, .dbInsert "notes" (.fields [])⟩, ⟨none, .dbInsert "notes" (.fields [])⟩]

theorem run_cancelled_insertTwice :
    insertTwice ≠ [] ∧
      (∃ visits done,
        Course cancelling insertTwice ⟨[], .null, .ofFields [], { outside := () }⟩ visits done
          ((run cancelling insertTwice (.ofFields [])).run { outside := () }).1
          ((run cancelling insertTwice (.ofFields [])).run { outside := () }).2 ∧
        StopsWhenCancelled cancelling insertTwice { outside := () } visits
          ((run cancelling insertTwice (.ofFields [])).run { outside := () }).1
          ((run cancelling insertTwice (.ofFields [])).run { outside := () }).2) ∧
      ((run cancelling insertTwice (.ofFields [])).run { outside := () }).1.outcome =
        .error .cancelled ∧
      ((run cancelling insertTwice (.ofFields [])).run { outside := () }).2.calls =
        [.insert "notes" []] := by
  have h : insertTwice ≠ [] := List.cons_ne_nil _ _
  exact ⟨h, run_cancelled h cancelling _ _, rfl, rfl⟩

end Pipeline

end Conduit
