import Conduit.Proofs.Eval.Contract
import Mathlib.Data.List.Forall2

/-!
# Actions that look alike

Two runs are compared by what an observer sees of them: how they end, the
calls of the database, and the events of the kinds that are shown. What was
noted on the way is left aside, since the notes hold whole scopes and nothing
is ever decided by them.

Actions that look alike from all worlds that look alike can be put together
into actions that look alike. A claim about two evaluations is then a claim
about the few operations in which they differ.
-/

namespace Conduit

/-- Worlds that differ at most in their notes and in events that are not
shown. -/
structure World.Alike {σ : Type} (shown : Event → Bool) (w v : World σ) : Prop where
  outside : w.outside = v.outside
  cancelled : w.cancelled = v.cancelled
  calls : w.calls = v.calls
  events : w.events.filter shown = v.events.filter shown

namespace World.Alike

variable {σ : Type} {shown : Event → Bool} {w v : World σ}

theorem refl (w : World σ) : w.Alike shown w := ⟨rfl, rfl, rfl, rfl⟩

theorem trans {u : World σ} (h : w.Alike shown v) (h' : v.Alike shown u) : w.Alike shown u :=
  ⟨h.outside.trans h'.outside, h.cancelled.trans h'.cancelled, h.calls.trans h'.calls,
    h.events.trans h'.events⟩

/-- Notes are not looked at. -/
theorem withNotes (h : w.Alike shown v) (ns ms : List Note) :
    World.Alike shown { w with notes := ns } { v with notes := ms } :=
  ⟨h.outside, h.cancelled, h.calls, h.events⟩

theorem withEvent (h : w.Alike shown v) (e : Event) :
    World.Alike shown { w with events := w.events ++ [e] } { v with events := v.events ++ [e] } :=
  ⟨h.outside, h.cancelled, h.calls, by simp only [List.filter_append, h.events]⟩

/-- An event that is not shown can be reported on one side alone. -/
theorem hiddenEvent {e : Event} (he : shown e = false) (w : World σ) :
    World.Alike shown w { w with events := w.events ++ [e] } :=
  ⟨rfl, rfl, rfl, by simp [List.filter_append, he]⟩

/-- If all events are shown, the worlds have the same events. -/
theorem all_events (h : w.Alike (fun _ => true) v) : w.events = v.events := by
  have := h.events
  rwa [List.filter_true, List.filter_true] at this

end World.Alike

/-- From worlds that look alike, two runs come to the same and leave worlds
that look alike. -/
def RunsAlike {σ α : Type} (shown : Event → Bool) (x y : StateM (World σ) α) : Prop :=
  ∀ w v, w.Alike shown v → (x.run w).1 = (y.run v).1 ∧ (x.run w).2.Alike shown (y.run v).2

namespace RunsAlike

variable {σ α β : Type} {shown : Event → Bool}

theorem pure (a : α) : RunsAlike shown (pure a : StateM (World σ) α) (pure a) :=
  fun _ _ h => ⟨rfl, h⟩

theorem bind {x y : StateM (World σ) α} {f g : α → StateM (World σ) β} (hxy : RunsAlike shown x y)
    (hfg : ∀ a, RunsAlike shown (f a) (g a)) : RunsAlike shown (x >>= f) (y >>= g) := by
  intro w v h
  obtain ⟨hresult, hworld⟩ := hxy w v h
  rw [StateT.run_bind, StateT.run_bind]
  rcases hx : x.run w with ⟨a, w'⟩
  rcases hy : y.run v with ⟨b, v'⟩
  rw [hx, hy] at hresult hworld
  cases hresult
  exact hfg a w' v' hworld

end RunsAlike

namespace Action

variable {σ α β : Type} {shown : Event → Bool}

/-- Actions whose runs look alike, stopped by a signal or not. -/
def Alike (shown : Event → Bool) (x y : Action σ α) : Prop := RunsAlike shown x.run y.run

theorem run_checkCancelled (w : World σ) :
    (checkCancelled : Action σ Unit).run.run w =
      (if w.cancelled then .error (.failed .cancelled) else .ok (), w) := by
  show ((if w.cancelled then Action.fail .cancelled else pure () : Action σ Unit).run.run w) = _
  split <;> rfl

theorem run_consult (db : Database σ) (call : Call) (w : World σ) :
    (consult db call).run.run w = (.ok (db.respond call w.outside).1.result, { w with
      outside := (db.respond call w.outside).2
      cancelled := w.cancelled || (db.respond call w.outside).1.cancels
      calls := w.calls ++ [call] }) :=
  rfl

theorem run_readClock (host : Host σ) (w : World σ) :
    (readClock host).run.run w =
      (.ok (host.clock w.outside).1, { w with outside := (host.clock w.outside).2 }) :=
  rfl

/-- Actions that cannot be told apart from outside: from every world they end
in the same way, after the same calls and events, and leave the same state of
the host behind. -/
structure Same (x y : Action σ α) : Prop where
  result : ∀ w, (x.run.run w).1 = (y.run.run w).1
  calls : ∀ w, (x.run.run w).2.calls = (y.run.run w).2.calls
  events : ∀ w, (x.run.run w).2.events = (y.run.run w).2.events
  outside : ∀ w, (x.run.run w).2.outside = (y.run.run w).2.outside
  cancelled : ∀ w, (x.run.run w).2.cancelled = (y.run.run w).2.cancelled

namespace Alike

theorem same {x y : Action σ α} (h : Alike (fun _ => true) x y) : Same x y where
  result w := (h w w (.refl w)).1
  calls w := (h w w (.refl w)).2.calls
  events w := (h w w (.refl w)).2.all_events
  outside w := (h w w (.refl w)).2.outside
  cancelled w := (h w w (.refl w)).2.cancelled

/-! ## Single steps -/

theorem pure (a : α) : Alike shown (pure a : Action σ α) (pure a) :=
  RunsAlike.pure _

theorem throw (signal : Signal) : Alike shown (throw signal : Action σ α) (throw signal) :=
  RunsAlike.pure _

theorem fail (f : Failure) : Alike shown (.fail f : Action σ α) (.fail f) :=
  throw (.failed f)

theorem ofExcept (r : Except Failure α) :
    Alike shown (.ofExcept r : Action σ α) (.ofExcept r) := by
  cases r with
  | ok a => exact pure a
  | error f => exact fail f

/-- Whatever is noted looks alike. -/
theorem note (n m : Note) : Alike shown (.note n : Action σ Unit) (.note m) :=
  fun _ _ h => ⟨rfl, h.withNotes _ _⟩

theorem report (e : Event) : Alike shown (.report e : Action σ Unit) (.report e) :=
  fun _ _ h => ⟨rfl, h.withEvent e⟩

theorem bind {x y : Action σ α} {f g : α → Action σ β} (hxy : Alike shown x y)
    (hfg : ∀ a, Alike shown (f a) (g a)) : Alike shown (x >>= f) (y >>= g) := by
  have hcont : ∀ ended, RunsAlike shown (ExceptT.bindCont f ended) (ExceptT.bindCont g ended) := by
    intro ended
    cases ended with
    | ok a => exact hfg a
    | error signal => exact .pure _
  exact RunsAlike.bind hxy hcont

/-- Operations look alike if they come to the same. -/
theorem perform {o o' : Operation} (h : o.result = o'.result) :
    Alike shown (.perform o : Action σ Value) (.perform o') := by
  refine bind (note _ _) fun _ => ?_
  rw [h]
  exact ofExcept _

theorem recover {x y : Action σ α} (h : Alike shown x y) (kinds : List FailureKind) (a : α) :
    Alike shown (.recover kinds a x) (.recover kinds a y) := by
  intro w v hw
  obtain ⟨hresult, hworld⟩ := h w v hw
  rw [run_recover, run_recover]
  rcases hx : x.run.run w with ⟨(f | u) | b, w'⟩ <;>
    rcases hy : y.run.run v with ⟨(f' | u') | b', v'⟩ <;>
    rw [hx, hy] at hresult hworld <;> cases hresult <;> exact ⟨rfl, hworld⟩

theorem inFilter {x y : Action σ α} (h : Alike shown x y) :
    Alike shown x.inFilter y.inFilter := by
  intro w v hw
  obtain ⟨hresult, hworld⟩ := h _ _ (hw.withNotes [] [])
  rw [run_inFilter, run_inFilter]
  exact ⟨hresult, hworld.withNotes _ _⟩

/-! ## One after another -/

theorem mapEach {f g : Value → Action σ Value} (h : ∀ x, Alike shown (f x) (g x))
    (xs : List Value) : Alike shown (Action.mapEach f xs) (Action.mapEach g xs) := by
  induction xs with
  | nil => exact pure _
  | cons x xs ih => exact bind (h x) fun _ => bind ih fun _ => pure _

theorem keepEach {f g : Value → Action σ Value} (h : ∀ x, Alike shown (f x) (g x))
    (xs : List Value) : Alike shown (Action.keepEach f xs) (Action.keepEach g xs) := by
  induction xs with
  | nil => exact pure _
  | cons x xs ih => exact bind (h x) fun _ => bind ih fun _ => pure _

theorem foldEach {f g : Value → Value → Action σ Value}
    (h : ∀ acc x, Alike shown (f acc x) (g acc x)) (xs : List Value) (acc : Value) :
    Alike shown (Action.foldEach f acc xs) (Action.foldEach g acc xs) := by
  induction xs generalizing acc with
  | nil => exact pure _
  | cons x xs ih => exact bind (h acc x) fun next => ih next

theorem conjoin {xs ys : List (Action σ Value)} (h : List.Forall₂ (Alike shown) xs ys)
    (last : Value) : Alike shown (Action.conjoin last xs) (Action.conjoin last ys) := by
  induction h generalizing last with
  | nil => exact pure _
  | cons hact _ ih =>
      refine bind hact fun v => ?_
      split
      · exact ih v
      · exact pure v

theorem disjoin {xs ys : List (Action σ Value)} (h : List.Forall₂ (Alike shown) xs ys)
    (last : Value) : Alike shown (Action.disjoin last xs) (Action.disjoin last ys) := by
  induction h generalizing last with
  | nil => exact pure _
  | cons hact _ ih =>
      refine bind hact fun v => ?_
      split
      · exact pure v
      · exact ih v

/-! ## The host -/

theorem checkCancelled : Alike shown (checkCancelled : Action σ Unit) checkCancelled := by
  intro w v h
  rw [run_checkCancelled, run_checkCancelled, h.cancelled]
  exact ⟨rfl, h⟩

/-- What a database answers depends on its own state only. -/
theorem consult (db : Database σ) (call : Call) :
    Alike shown (consult db call) (consult db call) := by
  intro w v h
  rw [run_consult, run_consult, h.outside]
  exact ⟨rfl, rfl, congrArg (· || _) h.cancelled, congrArg (· ++ [call]) h.calls, h.events⟩

theorem ask (db : Database σ) (call : Call) : Alike shown (.ask db call) (.ask db call) := by
  refine bind checkCancelled fun _ => bind (consult db call) fun reply => ?_
  cases reply with
  | error fault => exact fail _
  | ok value => exact bind (report _) fun _ => pure value

theorem readClock (host : Host σ) : Alike shown (.readClock host) (.readClock host) := by
  intro w v h
  rw [run_readClock, run_readClock, h.outside]
  exact ⟨rfl, rfl, h.cancelled, h.calls, h.events⟩

theorem takeEngine (host : Host σ) : Alike shown (.takeEngine host) (.takeEngine host) := by
  intro w v h
  rw [run_takeEngine, run_takeEngine, h.outside]
  exact ⟨rfl, rfl, h.cancelled, h.calls, h.events⟩

end Alike

end Action

namespace Expr

open Action

variable {σ : Type} {shown : Event → Bool}

/-! ## Parts of an evaluation -/

theorem requireItems_alike (op : Operator) (v : Value) :
    Alike shown (requireItems op v : Action σ (List Value)) (requireItems op v) := by
  cases v with
  | arr xs => exact .pure xs
  | _ => exact .fail _

theorem requireNumber_alike (op : Operator) (position : Nat) (v : Value) :
    Alike shown (requireNumber op position v : Action σ Number) (requireNumber op position v) := by
  cases v with
  | number n => exact .pure n
  | _ => exact .fail _

theorem requireObject_alike (part : String) (v : Value) :
    Alike shown (requireObject part v : Action σ (Fields Value)) (requireObject part v) := by
  cases v with
  | obj fs => exact .pure fs
  | _ => exact .fail _

theorem requireDatabase_alike (host : Host σ) (op : Operator) :
    Alike shown (requireDatabase host op) (requireDatabase host op) := by
  unfold requireDatabase
  split
  · exact .pure _
  · exact .fail _

theorem requireSchema_alike (host : Host σ) (schema : SchemaRef) :
    Alike shown (requireSchema host schema) (requireSchema host schema) := by
  cases schema with
  | inline fields => exact .pure fields
  | named name =>
      refine .bind (.note _ _) fun _ => ?_
      split
      · exact .pure _
      · exact .fail _

theorem requireNumbers_alike {op : Operator} {xs ys : List (Action σ Value)}
    (h : List.Forall₂ (Alike shown) xs ys) (position : Nat) :
    Alike shown (requireNumbers op position xs) (requireNumbers op position ys) := by
  induction h generalizing position with
  | nil => exact .pure _
  | cons hact _ ih =>
      refine .bind hact fun v => .bind (requireNumber_alike op position v) fun n => ?_
      exact .bind (ih _) fun _ => .pure _

theorem isPresent_alike {x y : Action σ Value} (h : Alike shown x y) :
    Alike shown (isPresent x) (isPresent y) :=
  .recover (.bind h fun _ => .pure _) _ _

end Expr

end Conduit
