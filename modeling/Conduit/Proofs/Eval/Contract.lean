import Conduit.Eval

/-!
# Contracts

Seen from outside, an evaluation ends in some way and leaves notes behind.
A contract is a condition on these two, the signal that stopped the action
if one did and the notes that it made, such that actions which keep it can
be put together into actions which keep it. What is to be shown of all
evaluations is stated as a contract; this module shows, once for all of
them, that every way of putting actions together keeps contracts.

A contract never speaks about the world before the action: the notes are
those that the action added.
-/

namespace Conduit

/-- A host without a database, whose clock stands still. -/
def Host.bare : Host Unit := { database := none, clock := fun u => (.ok ⟨0, none⟩, u) }

/-- The signal that stopped an action, if one did. -/
def Signal.of? {α : Type} : Except Signal α → Option Signal
  | .ok _ => none
  | .error signal => some signal

namespace Operation

/-- How the doing of an operation ends. -/
def stop? (o : Operation) : Option Signal :=
  match o.result with
  | .ok _ => none
  | .error f => some (.failed f)

/-- Whether an operation is about values alone, whatever names mean. -/
def isClosed : Operation → Bool
  | .read _ _ => false
  | .renderIn _ _ _ => false
  | _ => true

end Operation

/-- A condition on how an action ended and what it noted, the latest first. -/
structure Contract where
  allows : Option Signal → List Note → Prop
  idle : allows none []
  chain : ∀ {stop earlier later}, allows none earlier → allows stop later →
    allows stop (later ++ earlier)
  own : ∀ {f : Failure}, f.isOwn = true → allows (some (.failed f)) []
  returned : ∀ {v}, allows (some (.returned v)) []
  /-- Only failures of evaluation's own are ever recovered from. -/
  caught : ∀ {f : Failure} {notes}, f.isOwn = true → allows (some (.failed f)) notes →
    allows none notes
  closed : ∀ {o : Operation}, o.isClosed = true → allows o.stop? [.operation o]

namespace Contract

/-- Whether an operation may be done. -/
def Permits (c : Contract) (o : Operation) : Prop := c.allows o.stop? [.operation o]

/-- The contract that every note satisfies a condition, which may only say
something about the operations that read names, about lookups of schemas
and about bindings. -/
def ofNotes (Good : Note → Prop)
    (closed : ∀ {o : Operation}, o.isClosed = true → Good (.operation o)) : Contract where
  allows _ notes := ∀ n ∈ notes, Good n
  idle := by simp
  chain h₁ h₂ := by
    intro n hn
    rcases List.mem_append.mp hn with h | h
    · exact h₂ n h
    · exact h₁ n h
  own _ := by simp
  returned := by simp
  caught _ h := h
  closed h := by simpa using closed h

theorem ofNotes_nil {Good : Note → Prop} {closed} {stop : Option Signal} :
    (ofNotes Good closed).allows stop [] := by
  intro n hn
  cases hn

/-- What `inner` allows inside a filter, `outer` allows of the whole. -/
def Covers (outer inner : Contract) : Prop :=
  ∀ {stop notes}, inner.allows stop notes → outer.allows stop (notes.map .filtered)

end Contract

namespace Action

variable {σ α β : Type} {c : Contract}

/-- From every world, an action ends and notes as the contract allows. -/
def Meets (c : Contract) (act : Action σ α) : Prop :=
  ∀ w, ∃ new, (act.run.run w).2.notes = new ++ w.notes ∧
    c.allows (Signal.of? (act.run.run w).1) new

/-! ## Single steps -/

theorem run_bind (x : Action σ α) (f : α → Action σ β) (w : World σ) :
    (x >>= f).run.run w = match x.run.run w with
      | (.ok a, w') => (f a).run.run w'
      | (.error signal, w') => (.error signal, w') := by
  rw [ExceptT.run_bind, StateT.run_bind]
  rcases x.run.run w with ⟨signal | a, w'⟩ <;> rfl

/-- An action that leaves the notes as they are. -/
theorem Meets.of_quiet {act : Action σ α} (hn : ∀ w, (act.run.run w).2.notes = w.notes)
    (ha : ∀ w, c.allows (Signal.of? (act.run.run w).1) []) : Meets c act := by
  intro w
  exact ⟨[], by rw [hn w]; rfl, ha w⟩

theorem Meets.pure (a : α) : Meets c (pure a : Action σ α) :=
  .of_quiet (fun _ => rfl) (fun _ => c.idle)

theorem Meets.fail {f : Failure} (h : f.isOwn = true) : Meets c (.fail f : Action σ α) :=
  .of_quiet (fun _ => rfl) (fun _ => c.own h)

theorem Meets.returned (v : Value) : Meets c (throw (.returned v) : Action σ α) :=
  .of_quiet (fun _ => rfl) (fun _ => c.returned)

theorem Meets.ofExcept {r : Except Failure α}
    (h : ∀ f, r = .error f → c.allows (some (.failed f)) []) :
    Meets c (.ofExcept r : Action σ α) := by
  cases r with
  | ok a => exact .pure a
  | error f => exact .of_quiet (fun _ => rfl) (fun _ => h f rfl)

theorem Meets.note {n : Note} (h : c.allows none [n]) : Meets c (.note n : Action σ Unit) :=
  fun _ => ⟨[n], rfl, h⟩

theorem run_perform (o : Operation) (w : World σ) :
    ((perform o).run.run w).1 = o.result.mapError .failed := by
  unfold perform ofExcept
  cases o.result <;> rfl

/-- What is noted is the operation that the result is of. -/
theorem notes_perform (o : Operation) (w : World σ) :
    ((perform o).run.run w).2.notes = .operation o :: w.notes := by
  unfold perform ofExcept
  cases o.result <;> rfl

theorem Meets.perform {o : Operation} (h : c.Permits o) :
    Meets c (.perform o : Action σ Value) := by
  intro w
  refine ⟨[.operation o], notes_perform o w, ?_⟩
  rw [run_perform]
  unfold Contract.Permits Operation.stop? at h
  cases hr : o.result <;> rw [hr] at h <;> exact h

theorem Meets.bind {x : Action σ α} {f : α → Action σ β} (hx : Meets c x)
    (hf : ∀ a, Meets c (f a)) : Meets c (x >>= f) := by
  intro w
  obtain ⟨earlier, he, hae⟩ := hx w
  rw [run_bind]
  rcases h : x.run.run w with ⟨signal | a, w'⟩ <;> rw [h] at he hae
  · exact ⟨earlier, he, hae⟩
  · obtain ⟨later, hl, hal⟩ := hf a w'
    refine ⟨later ++ earlier, ?_, c.chain hae hal⟩
    rw [hl, he, List.append_assoc]

/-- A failure that has a kind is one of evaluation's own. -/
theorem isOwn_of_kind {f : Failure} {kinds : List FailureKind}
    (h : f.kind?.any kinds.contains = true) : f.isOwn = true := by
  cases f <;> first | rfl | cases h

theorem run_recover (kinds : List FailureKind) (v : α) (act : Action σ α) (w : World σ) :
    (Action.recover kinds v act).run.run w = match act.run.run w with
      | (.error (.failed f), w') =>
        (if f.kind?.any kinds.contains then .ok v else .error (.failed f), w')
      | ended => ended := by
  unfold Action.recover
  simp only [tryCatch, tryCatchThe, MonadExceptOf.tryCatch, ExceptT.tryCatch]
  rw [ExceptT.run_mk, StateT.run_bind, ExceptT.run]
  rcases StateT.run act w with ⟨(f | u) | a, w'⟩
  · dsimp only [bind]
    split <;> rfl
  · rfl
  · rfl

theorem Meets.recover {kinds : List FailureKind} {v : α} {act : Action σ α} (h : Meets c act) :
    Meets c (.recover kinds v act) := by
  intro w
  obtain ⟨new, hn, ha⟩ := h w
  rw [run_recover]
  rcases hw : act.run.run w with ⟨(f | u) | a, w'⟩ <;> rw [hw] at hn ha
  · refine ⟨new, hn, ?_⟩
    dsimp only
    split
    · next hk => exact c.caught (isOwn_of_kind hk) ha
    · exact ha
  · exact ⟨new, hn, ha⟩
  · exact ⟨new, hn, ha⟩

theorem run_inFilter (act : Action σ α) (w : World σ) :
    act.inFilter.run.run w = ((act.run.run { w with notes := [] }).1,
      { (act.run.run { w with notes := [] }).2 with
        notes := (act.run.run { w with notes := [] }).2.notes.map .filtered ++ w.notes }) := rfl

/-- What is noted in a filter has to be allowed there, and as a note of a
filter outside. -/
theorem Meets.inFilter {inner : Contract} {act : Action σ α} (hc : c.Covers inner)
    (h : Meets inner act) : Meets c act.inFilter := by
  intro w
  obtain ⟨new, hn, ha⟩ := h { w with notes := [] }
  refine ⟨new.map .filtered, ?_, hc ha⟩
  rw [run_inFilter]
  dsimp only
  rw [hn, List.append_nil]

/-! ## One after another -/

theorem Meets.mapEach {act : Value → Action σ Value} (h : ∀ x, Meets c (act x)) (xs : List Value) :
    Meets c (Action.mapEach act xs) := by
  induction xs with
  | nil => exact .pure _
  | cons x xs ih =>
      exact .bind (h x) fun _ => .bind ih fun _ => .pure _

theorem Meets.keepEach {act : Value → Action σ Value} (h : ∀ x, Meets c (act x)) (xs : List Value) :
    Meets c (Action.keepEach act xs) := by
  induction xs with
  | nil => exact .pure _
  | cons x xs ih =>
      exact .bind (h x) fun _ => .bind ih fun _ => .pure _

theorem Meets.foldEach {act : Value → Value → Action σ Value} (h : ∀ acc x, Meets c (act acc x))
    (xs : List Value) (acc : Value) : Meets c (Action.foldEach act acc xs) := by
  induction xs generalizing acc with
  | nil => exact .pure _
  | cons x xs ih =>
      exact .bind (h acc x) fun next => ih next

theorem Meets.conjoin {acts : List (Action σ Value)} (h : ∀ act ∈ acts, Meets c act)
    (last : Value) : Meets c (Action.conjoin last acts) := by
  induction acts generalizing last with
  | nil => exact .pure _
  | cons act rest ih =>
      obtain ⟨hact, hrest⟩ := List.forall_mem_cons.mp h
      refine .bind hact fun v => ?_
      split
      · exact ih hrest v
      · exact .pure v

theorem Meets.disjoin {acts : List (Action σ Value)} (h : ∀ act ∈ acts, Meets c act)
    (last : Value) : Meets c (Action.disjoin last acts) := by
  induction acts generalizing last with
  | nil => exact .pure _
  | cons act rest ih =>
      obtain ⟨hact, hrest⟩ := List.forall_mem_cons.mp h
      refine .bind hact fun v => ?_
      split
      · exact .pure v
      · exact ih hrest v

/-! ## The host -/

/-- However a database breaks off, the failure is one of evaluation's own. -/
theorem isOwn_toFailure (call : Call) (fault : Fault) : (fault.toFailure call).isOwn = true := by
  cases fault with
  | broken text => rfl
  | failure f =>
      cases f <;> rfl

theorem Meets.checkCancelled : Meets c (checkCancelled : Action σ Unit) := by
  refine .bind (.of_quiet (fun _ => rfl) fun _ => c.idle) fun w => ?_
  split
  · exact .fail rfl
  · exact .pure _

theorem Meets.ask (db : Database σ) (call : Call) : Meets c (.ask db call) := by
  refine .bind .checkCancelled fun _ => ?_
  refine .bind (.of_quiet (fun _ => rfl) fun _ => c.idle) fun reply => ?_
  cases reply with
  | error fault => exact .fail (isOwn_toFailure call fault)
  | ok v => exact .bind (.of_quiet (fun _ => rfl) fun _ => c.idle) fun _ => .pure v

theorem Meets.readClock (host : Host σ) : Meets c (.readClock host) :=
  .of_quiet (fun _ => rfl) (fun _ => c.idle)

theorem run_takeEngine (host : Host σ) (w : World σ) :
    (takeEngine host).run.run w =
      (.ok (host.engine w.outside).1, { w with outside := (host.engine w.outside).2 }) :=
  rfl

theorem Meets.takeEngine (host : Host σ) : Meets c (.takeEngine host) :=
  .of_quiet (fun _ => rfl) (fun _ => c.idle)

end Action

namespace Expr

open Action

variable {σ : Type} {c : Contract}

/-! ## Parts of an evaluation -/

theorem requireItems_meets (op : Operator) (v : Value) :
    Meets c (requireItems op v : Action σ (List Value)) := by
  cases v with
  | arr xs => exact .pure xs
  | _ => exact .fail rfl

theorem requireNumber_meets (op : Operator) (position : Nat) (v : Value) :
    Meets c (requireNumber op position v : Action σ Number) := by
  cases v with
  | number n => exact .pure n
  | _ => exact .fail rfl

theorem requireObject_meets (part : String) (v : Value) :
    Meets c (requireObject part v : Action σ (Fields Value)) := by
  cases v with
  | obj fs => exact .pure fs
  | _ => exact .fail rfl

theorem requireDatabase_meets (host : Host σ) (op : Operator) :
    Meets c (requireDatabase host op) := by
  unfold requireDatabase
  split
  · exact .pure _
  · exact .fail rfl

theorem requireNumbers_meets {op : Operator} {acts : List (Action σ Value)}
    (h : ∀ act ∈ acts, Meets c act) (position : Nat) :
    Meets c (requireNumbers op position acts) := by
  induction acts generalizing position with
  | nil => exact .pure _
  | cons act rest ih =>
      obtain ⟨hact, hrest⟩ := List.forall_mem_cons.mp h
      refine .bind hact fun v => .bind (requireNumber_meets op position v) fun n => ?_
      exact .bind (ih hrest _) fun _ => .pure _

theorem isPresent_meets {act : Action σ Value} (h : Meets c act) : Meets c (isPresent act) :=
  .recover (.bind h fun _ => .pure _)

end Expr

end Conduit
