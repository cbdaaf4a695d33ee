import Conduit.Proofs.Eval.Alike
import Conduit.Proofs.Eval.Effects

/-!
# What happens during an evaluation

An evaluation is watched: each time that the evaluation of an expression or a
filter ends with a signal, and each time that a call of the database is due,
an incident is kept, the first one first. An incident under `$exists` or in a
filter of a query is kept together with that.

Only there can a signal be held up, and only one of the kinds that mean a
miss. Any other signal, be it raised by an operator or by the database,
escapes: no call is due after it, and the evaluation ends with it.
-/

namespace Conduit

/-! ## Incidents -/

/-- Whether a signal is recovered from. -/
def Shield.stops (shield : Shield) : Signal → Bool
  | .failed f => f.kind?.any shield.kinds.contains
  | .returned _ => false

inductive Incident where
  /-- The evaluation of an expression or a filter ended with a signal. -/
  | raised (signal : Signal)
  /-- A call was due while the run was cancelled. -/
  | refused (call : Call)
  | answered (call : Call) (reply : Reply)
  /-- Something happened behind a shield. -/
  | within (shield : Shield) (inner : Incident)

namespace Incident

/-- The signal that was raised. -/
def signal? : Incident → Option Signal
  | .raised signal => some signal
  | .refused _ => some (.failed .cancelled)
  | .answered call reply =>
    match reply.result with
    | .ok _ => none
    | .error fault => some (.failed (fault.toFailure call))
  | .within _ inner => inner.signal?

/-- The signal that was raised, unless a shield stops it. -/
def escape? : Incident → Option Signal
  | .within shield inner => inner.escape?.filter fun signal => !shield.stops signal
  | i => i.signal?

/-- The call that was made, and what the database answered. -/
def answer? : Incident → Option (Call × Reply)
  | .answered call reply => some (call, reply)
  | .within _ inner => inner.answer?
  | _ => none

/-- The call that was due, whether it was made or not. -/
def attempt? : Incident → Option Call
  | .raised _ => none
  | .refused call => some call
  | .answered call _ => some call
  | .within _ inner => inner.attempt?

def isRefused : Incident → Bool
  | .refused _ => true
  | .within _ inner => inner.isRefused
  | _ => false

/-- Whether the run was cancelled while the database worked. -/
def cancels : Incident → Bool
  | .answered _ reply => reply.cancels
  | .within _ inner => inner.cancels
  | _ => false

variable {i : Incident} {v : Value}

/-- A return passes through all shields. -/
theorem escape?_returned (h : i.signal? = some (.returned v)) :
    i.escape? = some (.returned v) := by
  induction i with
  | within shield inner ih => exact Option.filter_eq_some_iff.mpr ⟨ih h, rfl⟩
  | _ => exact h

/-- So does a cancellation. -/
theorem escape?_refused (h : i.isRefused = true) : i.escape? = some (.failed .cancelled) := by
  induction i with
  | within shield inner ih =>
      exact Option.filter_eq_some_iff.mpr ⟨ih h, by cases shield <;> rfl⟩
  | refused call => rfl
  | _ => cases h

/-- A fault of the database is raised as a failure. -/
theorem signal?_of_answer? {call : Call} {reply : Reply} {fault : Fault}
    (h : i.answer? = some (call, reply)) (hr : reply.result = .error fault) :
    i.signal? = some (.failed (fault.toFailure call)) := by
  induction i with
  | within shield inner ih => exact ih h
  | answered call reply =>
      cases h
      rw [signal?, hr]
  | _ => cases h

/-- The calls that were made. -/
def calls (incidents : List Incident) : List Call := (incidents.filterMap answer?).map Prod.fst

/-- What is reported of a call: nothing, if the database broke it off. -/
def eventOf : Call × Reply → Option Event
  | (call, reply) =>
    match reply.result with
    | .ok _ => some (.storageCall call.operator.name call.collection)
    | .error _ => none

/-- What is reported of the calls that were made. -/
def events (incidents : List Incident) : List Event :=
  (incidents.filterMap answer?).filterMap eventOf

end Incident

/-! ## Watching -/

/-- A world and what has happened in it. -/
structure Watch (σ : Type) where
  world : World σ
  incidents : List Incident := []

abbrev Watched (σ : Type) : Type → Type := ExceptT Signal (StateM (Watch σ))

/-- What a shield makes of the end of an action. -/
def Shield.settle {α : Type} (shield : Shield) (value : α) : Except Signal α → Except Signal α
  | .ok a => .ok a
  | .error signal => if shield.stops signal then .ok value else .error signal

namespace Watched

variable {σ α : Type}

def lift (act : Action σ α) : Watched σ α := fun watch =>
  let (result, world) := act.run.run watch.world
  (result, { watch with world })

def ask (db : Database σ) (call : Call) : Watched σ Value := fun watch =>
  let incident :=
    if watch.world.cancelled then .refused call
    else .answered call (db.respond call watch.world.outside).1
  let (result, world) := (Action.ask db call).run.run watch.world
  (result, ⟨world, watch.incidents ++ [incident]⟩)

def recover (shield : Shield) (value : α) (act : Watched σ α) : Watched σ α := fun watch =>
  let (result, after) := act.run.run { watch with incidents := [] }
  (shield.settle value result,
    { after with incidents := watch.incidents ++ after.incidents.map (.within shield) })

/-- An action whose notes are those of a filter. -/
def inFilter (act : Watched σ α) : Watched σ α := fun watch =>
  let (result, after) := act.run.run { watch with world := { watch.world with notes := [] } }
  (result, { after with
    world := { after.world with notes := after.world.notes.map .filtered ++ watch.world.notes } })

def enter (act : Watched σ Value) : Watched σ Value := fun watch =>
  match act.run.run watch with
  | (.ok v, after) => (.ok v, after)
  | (.error signal, after) =>
    (.error signal, { after with incidents := after.incidents ++ [.raised signal] })

def effects : Effects σ (Watched σ) := ⟨lift, ask, recover, inFilter, enter⟩

end Watched

/-! ## What incidents tell -/

namespace Incident

/-- No call is made once the run is cancelled. -/
def Obey : Bool → List Incident → Prop
  | _, [] => True
  | cancelled, i :: rest =>
    (cancelled = true → i.answer? = none) ∧ Obey (cancelled || i.cancels) rest

/-- Nothing escapes but the signal that stops the action, and no call is due
after it. -/
inductive LeadTo : Option Signal → List Incident → Prop where
  | nil {stop : Option Signal} : LeadTo stop []
  | pass {stop : Option Signal} {i : Incident} {rest : List Incident} :
    i.escape? = none → LeadTo stop rest → LeadTo stop (i :: rest)
  | stop {signal : Signal} {i : Incident} {rest : List Incident} : i.escape? = some signal →
    (∀ j ∈ rest, j.escape? = some signal ∧ j.attempt? = none) →
    LeadTo (some signal) (i :: rest)

variable {cancelled : Bool} {ended : Option Signal} {signal : Signal} {xs ys : List Incident}

theorem calls_append : calls (xs ++ ys) = calls xs ++ calls ys := by
  rw [calls, List.filterMap_append, List.map_append]
  rfl

theorem calls_within (shield : Shield) : calls (xs.map (.within shield)) = calls xs := by
  rw [calls, List.filterMap_map]
  rfl

theorem events_append : events (xs ++ ys) = events xs ++ events ys := by
  rw [events, List.filterMap_append, List.filterMap_append]
  rfl

theorem events_within (shield : Shield) : events (xs.map (.within shield)) = events xs := by
  rw [events, List.filterMap_map]
  rfl

theorem Obey.append (hx : Obey cancelled xs) (hy : Obey (cancelled || xs.any cancels) ys) :
    Obey cancelled (xs ++ ys) := by
  induction xs generalizing cancelled with
  | nil => simpa using hy
  | cons i rest ih =>
      refine ⟨hx.1, ih hx.2 ?_⟩
      rwa [List.any_cons, ← Bool.or_assoc] at hy

theorem Obey.within (shield : Shield) (h : Obey cancelled xs) :
    Obey cancelled (xs.map (.within shield)) := by
  induction xs generalizing cancelled with
  | nil => trivial
  | cons i rest ih => exact ⟨h.1, ih h.2⟩

theorem Obey.answer?_eq_none (h : Obey true xs) : ∀ i ∈ xs, i.answer? = none := by
  induction xs with
  | nil => simp
  | cons i rest ih => exact List.forall_mem_cons.mpr ⟨h.1 rfl, ih h.2⟩

theorem LeadTo.append (hx : LeadTo none xs) (hy : LeadTo ended ys) : LeadTo ended (xs ++ ys) := by
  generalize hn : none = stop at hx
  induction hx with
  | nil => exact hy
  | pass hi _ ih => exact .pass hi (ih hn)
  | stop => cases hn

/-- The evaluation around the one that was stopped is stopped too. -/
theorem LeadTo.raised (h : LeadTo (some signal) xs) :
    LeadTo (some signal) (xs ++ [.raised signal]) := by
  generalize hs : some signal = stop at h
  induction h with
  | nil =>
      cases hs
      exact .stop rfl (by simp)
  | pass hi _ ih => exact .pass hi (ih hs)
  | stop hi hrest =>
      cases hs
      refine .stop hi fun j hj => ?_
      rcases List.mem_append.mp hj with hj | hj
      · exact hrest j hj
      · obtain rfl := List.mem_singleton.mp hj
        exact ⟨rfl, rfl⟩

theorem LeadTo.of_forall (h : ∀ i ∈ xs, i.escape? = none) : LeadTo ended xs := by
  induction xs with
  | nil => exact .nil
  | cons i rest ih =>
      obtain ⟨hi, hrest⟩ := List.forall_mem_cons.mp h
      exact .pass hi (ih hrest)

theorem escape?_within {shield : Shield} {i : Incident} (h : i.escape? = some signal) :
    (within shield i).escape? = if shield.stops signal then none else some signal := by
  rw [escape?, h, Option.filter_some]
  cases shield.stops signal <;> rfl

/-- A signal that a shield stops does not get past it, any other one does. -/
theorem LeadTo.within (h : LeadTo ended xs) (shield : Shield) :
    LeadTo (ended.filter fun signal => !shield.stops signal) (xs.map (.within shield)) := by
  induction h with
  | nil => exact .nil
  | pass hi _ ih =>
      refine .pass ?_ ih
      rw [escape?, hi]
      rfl
  | @stop signal i rest hi hrest =>
      have hall : ∀ j ∈ i :: rest, j.escape? = some signal :=
        List.forall_mem_cons.mpr ⟨hi, fun j hj => (hrest j hj).1⟩
      rw [Option.filter_some]
      cases hs : shield.stops signal with
      | true =>
          refine .of_forall fun j hj => ?_
          obtain ⟨inner, hinner, rfl⟩ := List.mem_map.mp hj
          rw [escape?_within (hall inner hinner), hs]
          rfl
      | false =>
          have hpast : ∀ j ∈ i :: rest, (Incident.within shield j).escape? = some signal := by
            intro j hj
            rw [escape?_within (hall j hj), hs]
            rfl
          refine .stop (hpast i List.mem_cons_self) fun j hj => ?_
          obtain ⟨inner, hinner, rfl⟩ := List.mem_map.mp hj
          exact ⟨hpast inner (List.mem_cons_of_mem i hinner), (hrest inner hinner).2⟩

/-- What escapes is what the action ends with. -/
theorem LeadTo.eq_of_mem (h : LeadTo ended xs) {i : Incident} (hi : i ∈ xs)
    (hescape : i.escape? = some signal) : ended = some signal := by
  induction h with
  | nil => cases hi
  | pass hnone _ ih =>
      rcases List.mem_cons.mp hi with rfl | hi
      · rw [hnone] at hescape
        cases hescape
      · exact ih hi
  | stop hsome hrest =>
      rcases List.mem_cons.mp hi with rfl | hi
      · exact hsome.symm.trans hescape
      · exact (hrest i hi).1.symm.trans hescape

/-- After something has escaped no call is due. -/
theorem LeadTo.attempt?_eq_none {before after : List Incident} {i : Incident}
    (h : LeadTo ended (before ++ i :: after)) (hescape : i.escape? = some signal) :
    ∀ j ∈ after, j.attempt? = none := by
  intro j hj
  induction before with
  | nil =>
      cases h with
      | pass hnone _ =>
          rw [hnone] at hescape
          cases hescape
      | stop _ hrest => exact (hrest j hj).2
  | cons k rest ih =>
      cases h with
      | pass _ h => exact ih h
      | stop _ hrest => exact (hrest j (by simp [hj])).2

end Incident

/-- A shield takes away the signal that it stops. -/
theorem Shield.of?_settle {α : Type} (shield : Shield) (a : α) (ended : Except Signal α) :
    Signal.of? (shield.settle a ended) =
      (Signal.of? ended).filter fun signal => !shield.stops signal := by
  cases ended with
  | ok b => rfl
  | error signal =>
      unfold settle
      simp only [Signal.of?, Option.filter_some]
      cases shield.stops signal <;> rfl

namespace Action

variable {σ α : Type}

theorem run_recover_shield (shield : Shield) (a : α) (act : Action σ α) (w : World σ) :
    (Action.recover shield.kinds a act).run.run w =
      (shield.settle a (act.run.run w).1, (act.run.run w).2) := by
  rw [run_recover]
  rcases act.run.run w with ⟨(f | u) | b, w'⟩ <;> rfl

theorem run_ask_of_cancelled (db : Database σ) (call : Call) {w : World σ}
    (h : w.cancelled = true) :
    (Action.ask db call).run.run w = (.error (.failed .cancelled), w) := by
  unfold Action.ask
  rw [run_bind, run_checkCancelled, if_pos h]

theorem run_ask (db : Database σ) (call : Call) {w : World σ} (h : w.cancelled = false) :
    (Action.ask db call).run.run w =
      match (db.respond call w.outside).1.result with
      | .error fault => (.error (.failed (fault.toFailure call)), { w with
          outside := (db.respond call w.outside).2
          cancelled := (db.respond call w.outside).1.cancels
          calls := w.calls ++ [call] })
      | .ok v => (.ok v, { w with
          outside := (db.respond call w.outside).2
          cancelled := (db.respond call w.outside).1.cancels
          calls := w.calls ++ [call]
          events := w.events ++ [.storageCall call.operator.name call.collection] }) := by
  unfold Action.ask
  rw [run_bind, run_checkCancelled, if_neg (by rw [h]; decide)]
  dsimp only
  rw [run_bind, run_consult, h, Bool.false_or]
  dsimp only
  cases (db.respond call w.outside).1.result <;> rfl

end Action

/-- What the incidents of an action tell about its course: the calls that it
made, whether it was cancelled meanwhile, and what it ended with. -/
structure Tells {σ α : Type} (incidents : List Incident) (w : World σ)
    (ended : Except Signal α × World σ) : Prop where
  calls : ended.2.calls = w.calls ++ Incident.calls incidents
  cancelled : ended.2.cancelled = (w.cancelled || incidents.any Incident.cancels)
  obeys : Incident.Obey w.cancelled incidents
  leads : Incident.LeadTo (Signal.of? ended.1) incidents

namespace Watched

variable {σ α β : Type}

theorem run_bind (x : Watched σ α) (f : α → Watched σ β) (watch : Watch σ) :
    (x >>= f).run.run watch = match x.run.run watch with
      | (.ok a, after) => (f a).run.run after
      | (.error signal, after) => (.error signal, after) := by
  rw [ExceptT.run_bind, StateT.run_bind]
  rcases x.run.run watch with ⟨signal | a, after⟩ <;> rfl

theorem run_recover (shield : Shield) (a : α) (x : Watched σ α) (watch : Watch σ) :
    (x.recover shield a).run.run watch =
      (shield.settle a (x.run.run { watch with incidents := [] }).1,
        { (x.run.run { watch with incidents := [] }).2 with
          incidents := watch.incidents ++
            (x.run.run { watch with incidents := [] }).2.incidents.map (.within shield) }) :=
  rfl

theorem run_inFilter (x : Watched σ α) (watch : Watch σ) :
    x.inFilter.run.run watch =
      ((x.run.run { watch with world := { watch.world with notes := [] } }).1,
        { (x.run.run { watch with world := { watch.world with notes := [] } }).2 with
          world := { (x.run.run { watch with
              world := { watch.world with notes := [] } }).2.world with
            notes := (x.run.run { watch with
              world := { watch.world with notes := [] } }).2.world.notes.map .filtered ++
                watch.world.notes } }) :=
  rfl

theorem run_enter (x : Watched σ Value) (watch : Watch σ) :
    x.enter.run.run watch = match x.run.run watch with
      | (.ok v, after) => (.ok v, after)
      | (.error signal, after) =>
        (.error signal, { after with incidents := after.incidents ++ [.raised signal] }) :=
  rfl

/-- A watched action does what an action does, and keeps what happens. -/
def Watches (x : Watched σ α) (y : Action σ α) : Prop :=
  ∀ watch, ∃ incidents, Tells incidents watch.world (y.run.run watch.world) ∧
    (y.run.run watch.world).2.events = watch.world.events ++ Incident.events incidents ∧
    x.run.run watch = ((y.run.run watch.world).1,
      ⟨(y.run.run watch.world).2, watch.incidents ++ incidents⟩)

namespace Watches

open Action (run_ask run_ask_of_cancelled run_recover_shield)

/-- An action that calls nothing has no incidents of its own. -/
theorem lift {act : Action σ α} (h : act.CallsNothing) : Watches (Watched.lift act) act := by
  intro watch
  obtain ⟨hcalls, hcancelled, hevents⟩ := h watch.world
  refine ⟨[], ⟨?_, ?_, trivial, .nil⟩, ?_, ?_⟩
  · rw [hcalls]
    exact (List.append_nil _).symm
  · rw [hcancelled, List.any_nil, Bool.or_false]
  · rw [hevents]
    exact (List.append_nil _).symm
  · rw [List.append_nil]
    rfl

theorem pure (a : α) : Watches (pure a : Watched σ α) (pure a) := lift (.pure a)

theorem bind {x : Watched σ α} {y : Action σ α} {f : α → Watched σ β} {g : α → Action σ β}
    (hxy : Watches x y) (hfg : ∀ a, Watches (f a) (g a)) : Watches (x >>= f) (y >>= g) := by
  intro watch
  obtain ⟨earlier, hearlier, hevents, hx⟩ := hxy watch
  rw [run_bind, Action.run_bind, hx]
  rcases hy : y.run.run watch.world with ⟨signal | a, world⟩ <;> rw [hy] at hearlier hevents
  · exact ⟨earlier, ⟨hearlier.calls, hearlier.cancelled, hearlier.obeys, hearlier.leads⟩, hevents,
      rfl⟩
  · obtain ⟨later, hlater, hmore, hf⟩ := hfg a ⟨world, watch.incidents ++ earlier⟩
    refine ⟨earlier ++ later, ⟨?_, ?_, ?_, hearlier.leads.append hlater.leads⟩, ?_, ?_⟩
    · rw [hlater.calls, hearlier.calls, Incident.calls_append, List.append_assoc]
    · rw [hlater.cancelled, hearlier.cancelled, List.any_append, Bool.or_assoc]
    · exact hearlier.obeys.append (hearlier.cancelled ▸ hlater.obeys)
    · rw [hmore, hevents, Incident.events_append, List.append_assoc]
    · rw [← List.append_assoc]
      exact hf

theorem ask (db : Database σ) (call : Call) : Watches (Watched.ask db call) (.ask db call) := by
  intro watch
  let incident : Incident :=
    if watch.world.cancelled then .refused call
    else .answered call (db.respond call watch.world.outside).1
  suffices h : Tells [incident] watch.world ((Action.ask db call).run.run watch.world) ∧
      ((Action.ask db call).run.run watch.world).2.events =
        watch.world.events ++ Incident.events [incident] from ⟨[incident], h.1, h.2, rfl⟩
  cases hc : watch.world.cancelled with
  | true =>
      have hincident : incident = .refused call := if_pos hc
      rw [hincident, run_ask_of_cancelled db call hc]
      exact ⟨⟨(List.append_nil _).symm, (Bool.or_false _).symm, ⟨fun _ => rfl, trivial⟩,
        .stop rfl (by simp)⟩, (List.append_nil _).symm⟩
  | false =>
      have hincident : incident = .answered call (db.respond call watch.world.outside).1 :=
        if_neg (by rw [hc]; decide)
      rw [hincident, run_ask db call hc]
      cases hr : (db.respond call watch.world.outside).1.result with
      | error fault =>
          refine ⟨⟨rfl, ?_, ⟨fun h => ?_, trivial⟩, .stop ?_ (by simp)⟩, ?_⟩
          · simp [Incident.cancels, hc]
          · rw [hc] at h
            cases h
          · simp [Incident.escape?, Incident.signal?, hr]
          · simp [Incident.events, Incident.answer?, Incident.eventOf, hr]
      | ok v =>
          refine ⟨⟨rfl, ?_, ⟨fun h => ?_, trivial⟩, .pass ?_ .nil⟩, ?_⟩
          · simp [Incident.cancels, hc]
          · rw [hc] at h
            cases h
          · simp [Incident.escape?, Incident.signal?, hr]
          · simp [Incident.events, Incident.answer?, Incident.eventOf, hr]

theorem recover {x : Watched σ α} {y : Action σ α} (shield : Shield) (a : α)
    (h : Watches x y) : Watches (x.recover shield a) (.recover shield.kinds a y) := by
  intro watch
  obtain ⟨incidents, htells, hevents, hx⟩ := h { watch with incidents := [] }
  rw [run_recover, hx, run_recover_shield]
  refine ⟨incidents.map (.within shield), ⟨?_, ?_, htells.obeys.within shield, ?_⟩, ?_, rfl⟩
  · rw [htells.calls, Incident.calls_within]
  · rw [htells.cancelled, List.any_map]
    rfl
  · rw [Shield.of?_settle]
    exact htells.leads.within shield
  · rw [Incident.events_within]
    exact hevents

theorem inFilter {x : Watched σ α} {y : Action σ α} (h : Watches x y) :
    Watches x.inFilter y.inFilter := by
  intro watch
  obtain ⟨incidents, htells, hevents, hx⟩ :=
    h { watch with world := { watch.world with notes := [] } }
  refine ⟨incidents, ⟨htells.calls, htells.cancelled, htells.obeys, htells.leads⟩, hevents, ?_⟩
  rw [run_inFilter, hx, Action.run_inFilter]

theorem enter {x : Watched σ Value} {y : Action σ Value} (h : Watches x y) :
    Watches x.enter y := by
  intro watch
  obtain ⟨incidents, htells, hevents, hx⟩ := h watch
  rw [run_enter, hx]
  rcases hy : y.run.run watch.world with ⟨signal | v, world⟩ <;> rw [hy] at htells hevents
  · have hleads : Incident.LeadTo (some signal) incidents := htells.leads
    refine ⟨incidents ++ [Incident.raised signal], ⟨?_, ?_, ?_, hleads.raised⟩, ?_, ?_⟩
    · rw [htells.calls, Incident.calls_append]
      exact (congrArg _ (List.append_nil _)).symm
    · rw [htells.cancelled, List.any_append]
      exact (congrArg _ (Bool.or_false _)).symm
    · exact htells.obeys.append ⟨fun _ => rfl, trivial⟩
    · rw [hevents, Incident.events_append]
      exact congrArg _ (List.append_nil _).symm
    · rw [← List.append_assoc]
  · exact ⟨incidents, htells, hevents, rfl⟩

end Watches

theorem follows : Effects.Follows (effects : Effects σ (Watched σ)) Watches where
  pure := .pure
  bind := .bind
  lift := .lift
  ask := .ask
  recover := .recover
  inFilter := .inFilter
  enter := .enter

end Watched

/-! ## Evaluations -/

/-- A failure of the storage in a call, with the reason. -/
def Failure.IsStorage (call : Call) (reason : String) : Failure → Prop
  | .storage fault => fault.message =
    call.operator.name ++ " on '" ++ call.collection ++ "' failed: " ++ reason
  | _ => False

/-- A fault of the database as it is told: a failure of evaluation's own is
left as it is, of all else it is told that the storage failed, and why. -/
def Fault.IsToldAs (call : Call) : Fault → Failure → Prop
  | .failure g, f => if g.isOwn then f = g else f.IsStorage call g.message
  | .broken text, f => f.IsStorage call text

theorem Fault.isToldAs_toFailure (call : Call) (fault : Fault) :
    fault.IsToldAs call (fault.toFailure call) := by
  cases fault with
  | broken text => rfl
  | failure f => cases f <;> rfl

theorem Signal.eq_error_of_of? {α : Type} {ended : Except Signal α} {signal : Signal}
    (h : Signal.of? ended = some signal) : ended = .error signal := by
  cases ended with
  | ok a => cases h
  | error u =>
      cases h
      rfl

namespace Expr

variable {σ : Type}

/-- The evaluation of an expression, watched. -/
def watch (host : Host σ) (e : Expr) (s : Scope) (w : World σ) : Except Signal Value × Watch σ :=
  (Watched.effects.eval host e s).run.run { world := w }

/-- To watch an evaluation does not change it. -/
theorem watch_eq (host : Host σ) (e : Expr) (s : Scope) (w : World σ) :
    (watch host e s w).1 = ((eval host e s).run.run w).1 ∧
      (watch host e s w).2.world = ((eval host e s).run.run w).2 := by
  obtain ⟨incidents, -, -, heq⟩ := Watched.follows.eval host e s { world := w }
  unfold watch
  rw [heq]
  exact ⟨rfl, rfl⟩

theorem watch_tells (host : Host σ) (e : Expr) (s : Scope) (w : World σ) :
    Tells (watch host e s w).2.incidents w ((eval host e s).run.run w) := by
  obtain ⟨incidents, htells, -, heq⟩ := Watched.follows.eval host e s { world := w }
  unfold watch
  rw [heq]
  exact htells

/-- An evaluation reports the calls that were answered with a value, and nothing
else. -/
theorem watch_events (host : Host σ) (e : Expr) (s : Scope) (w : World σ) :
    (watch host e s w).2.world.events =
      w.events ++ Incident.events (watch host e s w).2.incidents := by
  obtain ⟨incidents, -, hevents, heq⟩ := Watched.follows.eval host e s { world := w }
  unfold watch
  rw [heq]
  exact hevents

/-- The signal that an evaluation ends with is raised at its end. -/
theorem raised_mem_watch {host : Host σ} {e : Expr} {s : Scope} {w : World σ} {signal : Signal}
    (h : (watch host e s w).1 = .error signal) :
    .raised signal ∈ (watch host e s w).2.incidents := by
  obtain ⟨act, hact⟩ := Watched.effects.eval_eq_enter host e s
  unfold watch at h ⊢
  rw [hact] at h ⊢
  change (act.enter.run.run { world := w }).1 = _ at h
  show _ ∈ (act.enter.run.run { world := w }).2.incidents
  rw [Watched.run_enter] at h ⊢
  rcases hrun : act.run.run { world := w } with ⟨u | v, after⟩ <;> rw [hrun] at h
  · cases h
    exact List.mem_append_right _ List.mem_cons_self
  · cases h

/-- Signals that are raised during an evaluation come out as they are. -/
structure IsTransparent (ended : Except Signal Value) (incidents : List Incident) : Prop where
  /-- The first signal that no shield stops is what the evaluation ends with,
  and no call is due after it. -/
  first : ∀ {before i after signal}, incidents = before ++ i :: after →
    (∀ j ∈ before, j.escape? = none) → i.escape? = some signal →
    ended = .error signal ∧ ∀ j ∈ after, j.attempt? = none
  /-- If there is none, the evaluation ends with a value. -/
  value : (∀ i ∈ incidents, i.escape? = none) → ∃ v, ended = .ok v
  /-- A return is stopped by no shield, wherever it is raised. -/
  returned : ∀ i ∈ incidents, ∀ v, i.signal? = some (.returned v) → ended = .error (.returned v)
  /-- A call that the database broke off raises what the database told. -/
  fault : ∀ i ∈ incidents, ∀ {call reply fault}, i.answer? = some (call, reply) →
    reply.result = .error fault →
    ∃ f, i.signal? = some (.failed f) ∧ fault.IsToldAs call f

/-- In every evaluation, whatever the host does, the first signal that is
raised comes out of it, unless it is a failure to find something under
`$exists`, or one to find or to match something in a filter of a query. -/
theorem eval_transparent (host : Host σ) (e : Expr) (s : Scope) (w : World σ) :
    ((eval host e s).run.run w) = ((watch host e s w).1, (watch host e s w).2.world) ∧
      ((eval host e s).run.run w).2.calls =
        w.calls ++ Incident.calls (watch host e s w).2.incidents ∧
      IsTransparent ((eval host e s).run.run w).1 (watch host e s w).2.incidents := by
  obtain ⟨hresult, hworld⟩ := watch_eq host e s w
  have htells := watch_tells host e s w
  refine ⟨Prod.ext hresult.symm hworld.symm, htells.calls, ?_, ?_, ?_, ?_⟩
  · intro before i after signal hsplit _ hi
    have hleads := htells.leads
    rw [hsplit] at hleads
    have hended := hleads.eq_of_mem (List.mem_append_right _ List.mem_cons_self) hi
    exact ⟨Signal.eq_error_of_of? hended, hleads.attempt?_eq_none hi⟩
  · intro hnone
    cases hend : ((eval host e s).run.run w).1 with
    | ok v => exact ⟨v, rfl⟩
    | error signal =>
        have hraised := hnone _ (raised_mem_watch (hresult.trans hend))
        cases hraised
  · intro i hi v hv
    exact Signal.eq_error_of_of? (htells.leads.eq_of_mem hi (Incident.escape?_returned hv))
  · intro i hi call reply fault hanswer hfault
    exact ⟨_, Incident.signal?_of_answer? hanswer hfault, fault.isToldAs_toFailure call⟩

end Expr

end Conduit
