import Conduit.Proofs.Eval.Limits
import Conduit.Query.Resolve

/-!
# Two walks along the same steps

Steps lead from a value to one value or fail where they lead nowhere; a query
takes them from a list of values and then holds fewer. At each step both decide
alike, so a query of steps comes to the list of the one value at their end, or
to the empty list exactly where the other walk fails.
-/

namespace Conduit

/-- The failures of steps that lead nowhere: nothing is there, or an index meets
what is no array. -/
inductive Failure.IsMiss (path : String) : Failure → Prop
  | absent : IsMiss path (.pathNotFound path)
  | notArray {k : Kind} (h : k ≠ .array) : IsMiss path (.mismatch (.index path k))

namespace Step

variable {path : String} {s : Step} {v w : Value} {f : Failure}

/-- A name of digits that is short enough to be a position in an array, and any
other step. -/
def FitsPosition : Step → Prop
  | .field name => Value.isPosition name = true → name.length ≤ Limit.numeralDigits
  | .index _ => True

instance : Decidable s.FitsPosition :=
  match s with
  | .field name =>
    inferInstanceAs (Decidable (Value.isPosition name = true → name.length ≤ Limit.numeralDigits))
  | .index _ => instDecidableTrue

theorem not_exceeds (h : s.FitsPosition) (l : Limit) (v : Value) : ¬s.Exceeds l v := by
  cases s with
  | index i => exact nofun
  | field name =>
      cases v with
      | arr xs =>
          rintro ⟨hdigits, hlong, -⟩
          exact Nat.not_le.mpr hlong (h hdigits)
      | _ => exact nofun

/-- A step fails only where it leads nowhere or goes past a limit. -/
theorem isMiss_of_follow (h : s.follow path v = .error f) :
    f.IsMiss path ∨ ∃ l, f = .limit l := by
  unfold follow at h
  split at h
  · split at h
    · split at h
      · next l _ =>
          cases h
          exact .inr ⟨l, rfl⟩
      · split at h
        · cases h
        · cases h
          exact .inl .absent
    · cases h
      exact .inl .absent
  · split at h
    · cases h
    · cases h
      exact .inl .absent
  · split at h
    · cases h
    · cases h
      exact .inl .absent
  · next hnotArray =>
      cases h
      refine .inl (.notArray fun hkind => ?_)
      cases v with
      | arr xs => exact hnotArray xs rfl
      | _ => cases hkind

/-- One step of both walks: the one value, or a miss and no value. -/
theorem follow_or_miss (path : String) (h : s.FitsPosition) (v : Value) :
    (∃ w, s.follow path v = .ok w ∧ Query.selectStep s v = .ok [w]) ∨
    ∃ f, s.follow path v = .error f ∧ f.IsMiss path ∧ Query.selectStep s v = .ok [] := by
  rcases follow_cases path s v with hfound | ⟨l, -, hlimit⟩ | ⟨f, hfollow, hown, hselect⟩
  · exact .inl hfound
  · exact absurd (selectStep_eq_error_iff.mp hlimit) (not_exceeds h l v)
  · refine .inr ⟨f, hfollow, ?_, hselect⟩
    rcases isMiss_of_follow hfollow with hmiss | ⟨l, rfl⟩
    · exact hmiss
    · cases hown

end Step

namespace Query

variable {m : Type → Type} [Monad m] {P : Type}

/-- What a judge does along steps: it visits each value that they come by, with
the step that is taken from there. -/
def visits (judge : Judge m P) : List Step → Value → m Unit
  | [], _ => pure ()
  | s :: rest, v => do
    judge.visit s v
    match selectStep s v with
    | .ok [w] => visits judge rest w
    | _ => pure ()

variable [LawfulMonad m]

theorem collect_single (find : Value → m (List Value)) (v : Value) :
    collect find [v] = find v := by
  simp only [collect, pure_bind, List.append_nil, bind_pure]

/-- Nothing leads anywhere from no values. -/
theorem runFrom_nil (judge : Judge m P) (segments : List (Segment P)) :
    runFrom judge segments [] = pure [] := by
  induction segments with
  | nil => rfl
  | cons segment rest ih => rw [runFrom, collect, pure_bind, ih]

/-- Along steps a query does as a path does: it finds the one value to which the
path leads, or the path leads nowhere and the query finds nothing. The judge is
asked for no verdict on the way, and is never told of a limit. -/
theorem run_steps_eq_resolve (judge : Judge m P) (path : String) {steps : List Step}
    (hsteps : ∀ s ∈ steps, s.FitsPosition) (root : Value) :
    (∃ v, Segment.resolve path (steps.map (.step (P := P))) root = .ok v ∧
      run judge (steps.map .step) root = visits judge steps root >>= fun _ => pure [v]) ∨
    ∃ f, Segment.resolve path (steps.map (.step (P := P))) root = .error (.failure f) ∧
      f.IsMiss path ∧
      run judge (steps.map .step) root = visits judge steps root >>= fun _ => pure [] := by
  unfold run
  induction steps generalizing root with
  | nil =>
      refine .inl ⟨root, rfl, ?_⟩
      rw [visits, pure_bind]
      rfl
  | cons s rest ih =>
      obtain ⟨hs, hrest⟩ := List.forall_mem_cons.mp hsteps
      rw [List.map_cons, runFrom, collect_single, select, Segment.resolve, visits]
      simp only [bind_assoc]
      rcases Step.follow_or_miss path hs root with ⟨w, hw, hselect⟩ | ⟨f, hf, hmiss, hselect⟩
      · rw [hw, hselect]
        simp only [pure_bind]
        rcases ih hrest w with ⟨v, hv, hrun⟩ | ⟨f, hf, hmiss, hrun⟩
        · exact .inl ⟨v, hv, by rw [hrun]⟩
        · exact .inr ⟨f, hf, hmiss, by rw [hrun]⟩
      · rw [hf, hselect]
        refine .inr ⟨f, rfl, hmiss, ?_⟩
        simp only [pure_bind, runFrom_nil]

/-- A judge that accepts all candidates and keeps still. -/
def acceptAll : Judge Id Unit := { accepts := fun _ _ => true, overrun := fun _ => [] }

/-- A position after a point and an index from the end; behind them, a field of
what is no object. -/
theorem run_steps_eq_resolve_rows :
    let steps : List Step := [.field "rows", .field "1", .index (-1)]
    let further : List Step := [.field "rows", .field "1", .index (-1), .field "id"]
    let root : Value := .obj [("rows", .arr [.null, .arr [.int 4, .int 7]])]
    (∀ s ∈ further, s.FitsPosition) ∧
      Segment.resolve "rows.1[-1]" (steps.map (.step (P := Unit))) root = .ok (.int 7) ∧
      run acceptAll (steps.map .step) root = [.int 7] ∧
      Segment.resolve "rows.1[-1].id" (further.map (.step (P := Unit))) root =
        .error (.failure (.pathNotFound "rows.1[-1].id")) ∧
      run acceptAll (further.map .step) root = [] := by
  intro steps further root
  have hsteps : ∀ s ∈ steps, s.FitsPosition := by decide
  have hfurther : ∀ s ∈ further, s.FitsPosition := by decide
  have hfound : Segment.resolve "rows.1[-1]" (steps.map (.step (P := Unit))) root =
    .ok (.int 7) := rfl
  have hmissed : Segment.resolve "rows.1[-1].id" (further.map (.step (P := Unit))) root =
    .error (.failure (.pathNotFound "rows.1[-1].id")) := rfl
  refine ⟨hfurther, hfound, ?_, hmissed, ?_⟩
  · rcases run_steps_eq_resolve acceptAll "rows.1[-1]" hsteps root with
      ⟨v, hv, hrun⟩ | ⟨f, hf, -⟩
    · cases hfound.symm.trans hv
      exact hrun
    · cases hfound.symm.trans hf
  · rcases run_steps_eq_resolve acceptAll "rows.1[-1].id" hfurther root with
      ⟨v, hv, -⟩ | ⟨f, -, -, hrun⟩
    · cases hmissed.symm.trans hv
    · exact hrun

end Query

end Conduit
