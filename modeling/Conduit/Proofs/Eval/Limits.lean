import Conduit.Proofs.Eval.Parts
import Conduit.Proofs.Expr.Reader
import Conduit.Proofs.Template.Escapes

/-!
# What escapes from an evaluation

Most failures of an evaluation are its own. The others escape from what it is
built on, and each comes from an operation on certain values. An integer that is
too large for a double or too long for a text, a name of digits that is too
long, a moment outside the calendar run past a limit. The template engine raises
its own exceptions when a tag is compiled or printed, a clock can fail, and a
query can be answered by a value that has no rows.

What escapes from an evaluation without validations escapes from one of its
operations, and whatever escapes from one of its operations escapes from it.
-/

namespace Conduit

variable {l : Limit} {f : Failure}

/-! ## Operations -/

/-- A moment that universal time has no date for. -/
def Moment.LeavesCalendar (m : Moment) : Prop :=
  ¬(0 ≤ (m.ticks : Int) - m.offset.getD 0 ∧ (m.ticks : Int) - m.offset.getD 0 < endOfTime)

theorem Moment.now_eq_error_iff {m : Moment} :
    m.now = .error l ↔ m.LeavesCalendar ∧ l = .dateOutOfRange := by
  unfold Moment.now Moment.universal LeavesCalendar
  rw [map_eq_error_iff]
  dsimp only
  split
  · next h => exact iff_of_false (fun he => by cases he) fun he => he.1 h
  · next h => exact ⟨fun he => ⟨h, by cases he; rfl⟩, fun he => by rw [he.2]⟩

namespace Operation

variable {o : Operation}

/-- Operands beyond a limit. -/
def Exceeds (l : Limit) : Operation → Prop
  | .read path s => ∃ v, s.get? path.head = some v ∧ DotPath.Exceeds l path.rest v
  | .step st v => st.Exceeds l v
  | .compare op left right => op.IsOrder ∧
    ∃ x y, left = .number x ∧ right = .number y ∧ x.Unorderable y ∧ l = .intTooLarge
  | .combine op first rest => (∃ before y after x, rest = before ++ y :: after ∧
    combineAll op first before = .ok x ∧ x.Clashes y) ∧ l = .intTooLarge
  | .combineTwo .subtract x y => x.Clashes y ∧ l = .intTooLarge
  | .combineTwo .divide x y => y.isZero = false ∧
    (x.Clashes y ∧ l = .intTooLarge ∨ x.HugeQuotient y ∧ l = .quotientTooLarge)
  | _ => False

/-- An answer that has no rows, by the name of its type. -/
def IsSingle (type : String) : Value → Prop
  | .null => type = "NoneType"
  | .bool _ => type = "bool"
  | .number (.int _) => type = "int"
  | .number (.double _) => type = "float"
  | .date _ => type = "datetime.date"
  | _ => False

/-- What escapes from an operation, and for which operands. -/
def Escapes (f : Failure) : Operation → Prop
  | .render engine template fields => template.Escapes engine fields f
  | .renderIn engine template s => template.Escapes engine s.toFields f
  | .rows answer => ∃ type, IsSingle type answer ∧
    f = .raised ⟨"TypeError", "'" ++ type ++ "' object is not iterable"⟩
  | .timestamp (.error g) => f = g
  | .timestamp (.ok m) => m.LeavesCalendar ∧ f = .limit .dateOutOfRange
  | o => ∃ l, f = .limit l ∧ o.Exceeds l

theorem combineAll_eq_error_iff {op : Variadic} {first : Number} {rest : List Number} :
    combineAll op first rest = .error l ↔ (∃ before y after x, rest = before ++ y :: after ∧
      combineAll op first before = .ok x ∧ x.Clashes y) ∧ l = .intTooLarge := by
  unfold combineAll
  rw [foldlM_eq_error_iff]
  cases op <;> simp only [Number.add, Number.mul, Number.combine_eq_error_iff, ← and_assoc,
    exists_and_right]

theorem rowsOf_eq_error_iff {answer : Value} :
    rowsOf answer = .error f ↔ (Operation.rows answer).Escapes f := by
  cases answer with
  | number n =>
      cases n <;>
        simp [rowsOf, rowsOf.notIterable, Escapes, IsSingle, Value.typeName, eq_comm]
  | _ => simp [rowsOf, rowsOf.notIterable, Escapes, IsSingle, Value.typeName, eq_comm]

theorem combineOf_eq_error_iff {op : Dyadic} {x y : Number} (hf : f.isOwn = false) :
    combineOf op x y = .error f ↔ (Operation.combineTwo op x y).Escapes f := by
  cases op with
  | subtract => exact mapError_limit_iff fun _ => Number.combine_eq_error_iff
  | divide =>
      simp only [Escapes, Exceeds]
      rw [combineOf]
      split
      · next h =>
          refine iff_of_false (fun he => ?_) fun ⟨l, _, hzero, _⟩ => ?_
          · cases he
            cases hf
          · rw [h] at hzero
            cases hzero
      · next h =>
          have hy : y.isZero = false := Bool.eq_false_iff.mpr h
          rw [mapError_limit_iff fun _ => Number.div_eq_error_iff hy]
          simp only [hy, true_and]

theorem holds_eq_error_iff {op : Comparison} {left right : Value} (hf : f.isOwn = false) :
    (op.holds left right).mapError Failure.ofUnordered = .error f ↔
      (Operation.compare op left right).Escapes f := by
  have hlimit : ∀ l, (op.holds left right).mapError Failure.ofUnordered = .error (.limit l) ↔
      (Operation.compare op left right).Exceeds l := by
    intro l
    rw [Exceeds, ← Comparison.holds_eq_error_iff]
    cases op.holds left right with
    | ok b => simp
    | error u => cases u <;> simp [Failure.ofUnordered]
  refine Failure.eq_error_iff (fun g hg => ?_) hlimit hf
  obtain ⟨u, -, rfl⟩ := mapError_eq_error_iff.mp hg
  cases u with
  | kinds left right => exact .inl rfl
  | nan => exact .inl rfl
  | limit l => exact .inr ⟨l, rfl⟩

theorem resolve_eq_error_iff {path : DotPath} {s : Scope} (hf : f.isOwn = false) :
    s.resolve path = .error f ↔ (Operation.read path s).Escapes f := by
  refine Failure.eq_error_iff (fun g hg => ?_) (fun l => ?_) hf
  · rw [Scope.resolve] at hg
    split at hg
    · exact DotPath.follow_isOrdinary hg
    · cases hg
      exact .inl rfl
  · rw [Exceeds, Scope.resolve]
    cases s.get? path.head <;> simp [DotPath.follow_eq_limit_iff]

/-- What does not belong to evaluation comes of an operation exactly if it
escapes from it. -/
theorem result_eq_error_iff (hf : f.isOwn = false) : o.result = .error f ↔ o.Escapes f := by
  cases o with
  | read path s => exact resolve_eq_error_iff hf
  | step st v =>
      rw [result, map_eq_error_iff]
      exact mapError_limit_iff fun _ => Step.selectStep_eq_error_iff
  | render engine template fields =>
      rw [result, map_eq_error_iff]
      exact Template.render_eq_error_iff hf
  | renderIn engine template s =>
      rw [result, map_eq_error_iff]
      exact Template.render_eq_error_iff hf
  | rows answer => exact rowsOf_eq_error_iff
  | timestamp reading =>
      cases reading with
      | error g => simp [result, Escapes, bind, Except.bind, eq_comm]
      | ok m =>
          show ((m.now.mapError Failure.limit).map Value.str) = .error f ↔ _
          rw [map_eq_error_iff, Escapes]
          exact mapError_long_iff fun _ => Moment.now_eq_error_iff
  | compare op left right =>
      rw [result, map_eq_error_iff]
      exact holds_eq_error_iff hf
  | combine op first rest =>
      rw [result, map_eq_error_iff]
      exact mapError_limit_iff fun _ => combineAll_eq_error_iff
  | combineTwo op x y =>
      rw [result, map_eq_error_iff]
      exact combineOf_eq_error_iff hf

theorem stop?_eq_failed_iff {f : Failure} :
    o.stop? = some (.failed f) ↔ o.result = .error f := by
  unfold stop?
  cases o.result <;> simp

end Operation

/-! ## Evaluations -/

/-- A noted operation from which a failure escapes. -/
def Note.Escapes (f : Failure) : Note → Prop
  | .operation o => o.Escapes f
  | .filtered n => n.Escapes f
  | _ => False

theorem Operation.escapes_stop? {o : Operation} (hf : f.isOwn = false) :
    o.stop? = some (.failed f) ↔ ∃ n ∈ [Note.operation o], n.Escapes f := by
  rw [stop?_eq_failed_iff, result_eq_error_iff hf]
  simp [Note.Escapes]

/-- The contract that what does not belong to evaluation stops an action if and
only if it escapes from one of its operations. -/
def Contract.escapes : Contract where
  allows stop notes := ∀ f, f.isOwn = false →
    (stop = some (.failed f) ↔ ∃ n ∈ notes, n.Escapes f)
  idle := by simp
  chain := by
    intro stop earlier later hearlier hlater f hf
    have hnone : ¬∃ n ∈ earlier, n.Escapes f := fun h => by cases (hearlier f hf).mpr h
    rw [hlater f hf]
    simp only [List.mem_append, or_and_right, exists_or, or_iff_left hnone]
  own hown := by
    refine fun f hf => iff_of_false (fun h => ?_) (by simp)
    cases h
    rw [hown] at hf
    cases hf
  returned := by simp
  caught := by
    intro f notes hown h g hg
    refine iff_of_false (fun h => by cases h) fun hescapes => ?_
    cases (h g hg).mpr hescapes
    rw [hown] at hg
    cases hg
  closed _ _ hf := Operation.escapes_stop? hf

/-- Whatever is done keeps to what escapes from operations. -/
theorem Contract.escapes_permits (o : Operation) : Contract.escapes.Permits o :=
  fun _ hf => Operation.escapes_stop? hf

theorem Contract.escapes_allowsFilters : Contract.escapes.AllowsFilters := by
  refine ⟨.escapes, fun {stop notes} h f hf => (h f hf).trans ?_, fun p s => ?_⟩
  · constructor
    · rintro ⟨n, hn, hescapes⟩
      exact ⟨.filtered n, List.mem_map_of_mem hn, hescapes⟩
    · rintro ⟨m, hm, hescapes⟩
      obtain ⟨n, hn, rfl⟩ := List.mem_map.mp hm
      exact ⟨n, hn, hescapes⟩
  · exact Contract.escapes_permits _

namespace Expr

variable {σ : Type} {host : Host σ} {e : Expr} {s : Scope}

/-- Whether an expression is a validation. -/
def isValidation : Expr → Bool
  | .validate _ _ _ _ => true
  | _ => false

theorem escapes_allowsPart {p : Part} (h : p.expr.isValidation = false) :
    Contract.escapes.AllowsPart host p := by
  obtain ⟨bound, e⟩ := p
  cases e with
  | get path => exact fun _ _ => Contract.escapes_permits _
  | renderString template vars =>
      cases vars with
      | some p => trivial
      | none => exact fun _ _ _ => Contract.escapes_permits _
  | validate value schema strict onFail => cases h
  | _ => trivial

theorem eval_escapes (h : ∀ p ∈ parts [] e, p.expr.isValidation = false) :
    Action.Meets .escapes (eval host e s) :=
  eval_meets Contract.escapes_allowsFilters e s (fun p hp => escapes_allowsPart (h p hp))
    (fun _ hn => by cases hn)

/-- From an evaluation without validations escapes what escapes from one of its
operations and nothing else: every other failure is one of its own. -/
theorem eval_overruns_iff (h : ∀ p ∈ parts [] e, p.expr.isValidation = false) (host : Host σ)
    (s : Scope) (w : World σ) :
    ∃ new, ((eval host e s).run.run w).2.notes = new ++ w.notes ∧
      ∀ f, f.isOwn = false → (((eval host e s).run.run w).1 = .error (.failed f) ↔
        ∃ n ∈ new, n.Escapes f) := by
  obtain ⟨new, hnotes, hescapes⟩ := eval_escapes h w
  refine ⟨new, hnotes, fun f hf => ?_⟩
  rw [← hescapes f hf]
  cases ((eval host e s).run.run w).1 <;> simp [Signal.of?]

/-! ### Two integers in order -/

/-- An order of two integers that are given in place. -/
def order (m n : Int) : Expr := .compare .gt (.literal (.int m)) (.literal (.int n))

theorem read_order (m n : Int) :
    Expr.read (.obj [("$gt", .arr [.int m, .int n])]) = .done (order m n) := by
  have hleft : read (.int m) = .done (.literal (.int m)) := read_literal rfl
  have hright : read (.int n) = .done (.literal (.int n)) := read_literal rfl
  rw [read_eq rfl rfl rfl]
  simp [ofArguments, Arguments.required, Arguments.find?, Arguments.get?, Arguments.closed,
    Arguments.present?, Arguments.leftover, Reading.under, Functor.map, Seq.seq, SeqLeft.seqLeft,
    Reading.apply, hleft, hright, order]

theorem order_not_isValidation (m n : Int) :
    ∀ p ∈ parts [] (order m n), p.expr.isValidation = false := by
  simp [order, parts, isValidation]

theorem eval_order (m n : Int) :
    eval host (order m n) s = Action.perform (.compare .gt (.int m) (.int n)) := rfl

theorem eval_overruns_iff_order :
    (∀ p ∈ parts [] (order 2 1), p.expr.isValidation = false) ∧
      ∃ new, ((eval .bare (order 2 1) (.ofFields [])).run.run { outside := () }).2.notes =
          new ++ [] ∧
        ∀ f, f.isOwn = false →
          (((eval .bare (order 2 1) (.ofFields [])).run.run { outside := () }).1 =
            .error (.failed f) ↔ ∃ n ∈ new, n.Escapes f) :=
  ⟨order_not_isValidation 2 1,
    eval_overruns_iff (order_not_isValidation 2 1) .bare (.ofFields []) { outside := () }⟩

/-- An integer of four hundred zeros, which is beyond all doubles. -/
def hugeInteger : Int := 10 ^ 200 * 10 ^ 200

theorem isHuge_hugeInteger : (Number.int hugeInteger).IsHuge := by
  show Double.overflowBound ≤ hugeInteger.natAbs
  rw [Double.overflowBound_eq]
  decide +kernel

/-- An order of two integers that is read without complaint and yet ends in
none of evaluation's own failures: one of them is beyond all doubles. -/
theorem order_huge_overruns :
    Expr.read (.obj [("$gt", .arr [.int hugeInteger, .int 1])]) = .done (order hugeInteger 1) ∧
      (∀ p ∈ parts [] (order hugeInteger 1), p.expr.isValidation = false) ∧
      ((eval .bare (order hugeInteger 1) (.ofFields [])).run.run { outside := () }).1 =
        .error (.failed (.limit .intTooLarge)) ∧ (Failure.limit .intTooLarge).isOwn = false := by
  refine ⟨read_order _ _, order_not_isValidation _ _, ?_, rfl⟩
  have hresult : (Operation.compare .gt (.int hugeInteger) (.int 1)).result =
      .error (.limit .intTooLarge) :=
    (Operation.result_eq_error_iff rfl).mpr
      ⟨_, rfl, trivial, _, _, rfl, rfl, .inl isHuge_hugeInteger, rfl⟩
  rw [eval_order, Action.run_perform, hresult]
  rfl

end Expr

end Conduit
