import Conduit.Eval
import Conduit.Proofs.Query.Place
import Conduit.Query.Reader

/-!
# The order of matches

A query keeps with each value no more than the value. Here it is run so that
it also keeps the way to each value: the places at which it stopped, one for
each segment, and one more for each descent, where the descendant is chosen.
Matches come out in the order of their ways: of two matches, that one is first
whose way takes the earlier place where the ways part.

This is the order of the document as long as no way stops at a container of the
place where another one stops. A descent makes such ways: it goes on from a
value and then from what is inside this value, so that what is found from the
value may lie behind what is found inside, and yet comes first.
-/

namespace Conduit

namespace Fields

theorem get?_eq_find? {α : Type} (name : String) (fs : Fields α) :
    fs.get? name = (fs.find? fun p => p.1 = name).map Prod.snd := by
  induction fs with
  | nil => rfl
  | cons f rest ih =>
      obtain ⟨k, v⟩ := f
      rw [get?, List.find?_cons]
      by_cases hk : k = name
      · simp [hk]
      · simp [hk, ih]

end Fields

namespace Segment

variable {P : Type}

/-- A segment that is no union and does not walk backwards. -/
def IsForward : Segment P → Prop
  | .slice s => 0 ≤ s.step.getD 1
  | .selection _ => False
  | .descent s => s.IsForward
  | _ => True

def IsDescent : Segment P → Prop
  | .descent _ => True
  | _ => False

end Segment

namespace Query

variable {m : Type → Type} {P : Type}

/-! ## Ways -/

/-- How a value was found. -/
structure Trail where
  /-- The places at which the query stopped before, the first of them first. -/
  passed : List Location
  location : Location
  value : Value

namespace Trail

def start (root : Value) : Trail := { passed := [], location := [], value := root }

/-- All places at which the query stopped. -/
def route (t : Trail) : List Location := t.passed ++ [t.location]

/-- The trails from here to the values at the given locations inside. -/
def onward (t : Trail) (ls : List Location) : List Trail :=
  ls.filterMap fun l => (t.value.at? l).map fun v =>
    { passed := t.route, location := t.location ++ l, value := v }

def children (t : Trail) : List Trail :=
  t.onward (Value.childLocations (List.range t.value.children.length))

end Trail

/-- The child that a step leads to, if there is one. -/
def stepPosition (s : Step) (v : Value) : Except Limit (Option Nat) :=
  match s, v with
  | .field name, .arr _ =>
    if Value.isPosition name then (Value.positionOf name).map some else .ok none
  | .field name, .obj fs => .ok (fs.findIdx? fun p => p.1 = name)
  | .field name, .mapping es => .ok (es.findIdx? fun e => match e.1 with
      | .str k => k == name
      | _ => false)
  | .field _, _ => .ok none
  | .index i, .arr xs =>
    .ok (if 0 ≤ i then some i.toNat
      else if (-i).toNat ≤ xs.length then some (xs.length - (-i).toNat) else none)
  | .index _, _ => .ok none

section Trails

variable [Monad m] (judge : Judge m P)

/-- The trails to the candidates that the judge accepts. -/
def keepTrails (p : P) : List Trail → m (List Trail)
  | [] => pure []
  | t :: rest => do
    let accepted ← judge.accepts p t.value
    let kept ← keepTrails p rest
    pure (if accepted then t :: kept else kept)

def collectTrails (find : Trail → m (List Trail)) : List Trail → m (List Trail)
  | [] => pure []
  | t :: rest => do
    let first ← find t
    let more ← collectTrails find rest
    pure (first ++ more)

mutual

/-- The trails that a segment makes of `t`. -/
def follow : Segment P → Trail → m (List Trail)
  | .step s, t => do
    judge.visit s t.value
    match stepPosition s t.value with
    | .ok position => pure (t.onward (Value.childLocations position.toList))
    | .error l => (fun _ => []) <$> judge.overrun l
  | .wildcard, t => pure t.children
  | .slice s, t =>
    match t.value with
    | .arr xs => pure (t.onward (Value.childLocations (s.positions xs.length)))
    | _ => pure []
  | .filter p, t => keepTrails judge p t.children
  | .selection ss, t => followAll ss t
  | .descent s, t => collectTrails (follow s) (t.onward t.value.locations)

def followAll : List (Segment P) → Trail → m (List Trail)
  | [], _ => pure []
  | s :: rest, t => do
    let first ← follow s t
    let more ← followAll rest t
    pure (first ++ more)

end

def trailsFrom : List (Segment P) → List Trail → m (List Trail)
  | [], found => pure found
  | s :: rest, found => do trailsFrom rest (← collectTrails (follow judge s) found)

/-- The trails to the matches of a query. -/
def trails (segments : List (Segment P)) (root : Value) : m (List Trail) :=
  trailsFrom judge segments [.start root]

end Trails

/-- At a numeric limit the judge ends the query and has no values to give. -/
def Judge.Stops [Monad m] (judge : Judge m P) : Prop :=
  ∀ l, ∃ stop : m Empty, judge.overrun l = Empty.elim <$> stop

/-! ## The values are those of the query -/

section Values

theorem values_onward (t : Trail) (ls : List Location) :
    (t.onward ls).map Trail.value = ls.filterMap (t.value.at? ·) := by
  rw [Trail.onward, List.map_filterMap]
  refine List.filterMap_congr fun l _ => ?_
  rw [Option.map_map]
  exact Option.map_id_apply

theorem values_children (t : Trail) : t.children.map Trail.value = t.value.children := by
  rw [Trail.children, values_onward, Value.filterMap_childLocations, List.range_eq_range',
    Slice.filterMap_range', List.drop_zero, List.take_length]

theorem map_snd_find? {α β : Type} (p : α × β → Bool) (l : List (α × β)) :
    (l.find? p).map Prod.snd = (l.findIdx? p).bind ((l.map Prod.snd)[·]?) := by
  rw [List.find?_eq_bind_findIdx?_getElem?, Option.map_bind]
  refine congrArg _ (funext fun i => ?_)
  exact (List.getElem?_map).symm

/-- A step leads to the child at its position. -/
theorem selectStep_eq (s : Step) (v : Value) :
    selectStep s v = (stepPosition s v).map fun position =>
      (position.bind (v.children[·]?)).toList := by
  cases s with
  | field name =>
      cases v with
      | arr xs =>
          simp only [selectStep, stepPosition]
          split
          · cases Value.positionOf name <;> rfl
          · rfl
      | obj fs =>
          show Except.ok (Fields.get? name fs).toList = _
          rw [Fields.get?_eq_find?, map_snd_find?]
          rfl
      | mapping es =>
          show Except.ok ((es.find? _).map Prod.snd).toList = _
          rw [map_snd_find?]
          rfl
      | _ => rfl
  | index i =>
      cases v with
      | arr xs =>
          simp only [selectStep, stepPosition, Value.element?]
          split
          · rfl
          · split <;> rfl
      | _ => rfl

theorem filterMap_toList {α β : Type} (o : Option α) (f : α → Option β) :
    o.toList.filterMap f = (o.bind f).toList := by
  cases o with
  | none => rfl
  | some a =>
      rw [Option.toList_some, List.filterMap_cons, Option.bind_some]
      cases f a <;> rfl

variable [Monad m] [LawfulMonad m] {judge : Judge m P}

theorem values_keepTrails (p : P) (ts : List Trail) :
    List.map Trail.value <$> keepTrails judge p ts = keep judge p (ts.map Trail.value) := by
  induction ts with
  | nil => simp [keepTrails, keep]
  | cons t rest ih =>
      rw [keepTrails, List.map_cons, keep, ← ih]
      simp only [map_bind, bind_map_left, map_pure]
      refine bind_congr fun accepted => bind_congr fun kept => ?_
      cases accepted <;> rfl

theorem values_collectTrails {find : Trail → m (List Trail)} {find' : Value → m (List Value)}
    (h : ∀ t, List.map Trail.value <$> find t = find' t.value) (ts : List Trail) :
    List.map Trail.value <$> collectTrails find ts = collect find' (ts.map Trail.value) := by
  induction ts with
  | nil => simp [collectTrails, collect]
  | cons t rest ih =>
      rw [collectTrails, List.map_cons, collect, ← ih, ← h]
      simp only [map_bind, bind_map_left, map_pure, List.map_append]

mutual

theorem values_follow (hstops : judge.Stops) : ∀ (s : Segment P) (t : Trail),
    List.map Trail.value <$> follow judge s t = select judge s t.value
  | .step s, t => by
      rw [follow, select, selectStep_eq]
      simp only [map_bind]
      refine bind_congr fun _ => ?_
      cases stepPosition s t.value with
      | ok position =>
          simp only [Except.map, map_pure, values_onward, Value.filterMap_childLocations,
            filterMap_toList]
      | error l =>
          obtain ⟨stop, hstop⟩ := hstops l
          simp only [Except.map, hstop, ← comp_map]
          exact congrArg (· <$> stop) (funext nofun)
  | .wildcard, t => by
      rw [follow, select, map_pure, values_children]
  | .slice s, t => by
      unfold follow select
      cases h : t.value with
      | arr xs =>
          simp only [map_pure, values_onward, Value.filterMap_childLocations, h]
          rfl
      | _ => exact map_pure _ _
  | .filter p, t => by
      rw [follow, select, values_keepTrails, values_children]
  | .selection ss, t => by
      rw [follow, select]
      exact values_followAll hstops ss t
  | .descent s, t => by
      rw [follow, select, values_collectTrails (values_follow hstops s), values_onward,
        Value.filterMap_locations]

theorem values_followAll (hstops : judge.Stops) : ∀ (ss : List (Segment P)) (t : Trail),
    List.map Trail.value <$> followAll judge ss t = selectAll judge ss t.value
  | [], t => by simp [followAll, selectAll]
  | s :: rest, t => by
      rw [followAll, selectAll, ← values_follow hstops s t, ← values_followAll hstops rest t]
      simp only [map_bind, bind_map_left, map_pure, List.map_append]

end

theorem values_trailsFrom (hstops : judge.Stops) (segments : List (Segment P))
    (found : List Trail) :
    List.map Trail.value <$> trailsFrom judge segments found =
      runFrom judge segments (found.map Trail.value) := by
  induction segments generalizing found with
  | nil => rw [trailsFrom, runFrom, map_pure]
  | cons s rest ih =>
      rw [trailsFrom, runFrom, ← values_collectTrails (values_follow hstops s)]
      simp only [map_bind, bind_map_left, ih]

/-- The trails lead to the values that the query gives. -/
theorem values_trails (hstops : judge.Stops) (segments : List (Segment P)) (root : Value) :
    List.map Trail.value <$> trails judge segments root = run judge segments root :=
  values_trailsFrom hstops segments [.start root]

end Values

/-! ## Where ways part -/

/-- Two ways part at a stop, the first of them to the earlier place. -/
def PartsBefore (p q : List Location) : Prop :=
  ∃ shared a b rest rest', p = shared ++ a :: rest ∧ q = shared ++ b :: rest' ∧ a < b

/-- Two ways part at a stop, the first of them to a container of the place to
which the second one goes. -/
def StopsAround (p q : List Location) : Prop :=
  ∃ shared a b rest rest', p = shared ++ a :: rest ∧ q = shared ++ b :: rest' ∧ a <+: b ∧ a ≠ b

theorem PartsBefore.mono {p q p' q' : List Location} (h : PartsBefore p q) (hp : p <+: p')
    (hq : q <+: q') : PartsBefore p' q' := by
  obtain ⟨shared, a, b, rest, rest', rfl, rfl, hab⟩ := h
  obtain ⟨more, rfl⟩ := hp
  obtain ⟨more', rfl⟩ := hq
  exact ⟨shared, a, b, rest ++ more, rest' ++ more', by simp, by simp, hab⟩

/-- What is known of a trail to a part of `root`. A way that takes one level at
a time is `direct`. -/
structure Trail.IsFrom (root : Value) (direct : Prop) (t : Trail) : Prop where
  value : root.at? t.location = some t.value
  /-- Each stop is at or inside the stops before it. -/
  inward : t.route.Pairwise (· <+: ·)
  levels : direct → t.route.map List.length = List.range t.route.length

/-- What is known of trails that go on from the way `p`. -/
structure Spread (root : Value) (direct : Prop) (p : List Location) (found : List Trail) :
    Prop where
  isFrom : ∀ t ∈ found, t.IsFrom root direct
  onward : ∀ t ∈ found, p <+: t.route
  ordered : found.Pairwise fun t u => PartsBefore t.route u.route

variable {root : Value} {direct : Prop} {p : List Location} {t u : Trail} {found : List Trail}
  {ls : List Location}

theorem Trail.IsFrom.prefix_location (h : t.IsFrom root direct) {a : Location}
    (ha : a ∈ t.route) : a <+: t.location := by
  rcases List.mem_append.mp ha with hpassed | hlast
  · exact (List.pairwise_append.mp h.inward).2.2 a hpassed _ (List.mem_singleton.mpr rfl)
  · obtain rfl := List.mem_singleton.mp hlast
    exact List.prefix_rfl

/-- Where the ways part, it is decided which of two places comes first, unless
one way stops around the other. -/
theorem location_lt (ht : t.IsFrom root direct) (hu : u.IsFrom root direct)
    (h : PartsBefore t.route u.route) :
    t.location < u.location ∨ StopsAround t.route u.route := by
  obtain ⟨shared, a, b, rest, rest', htroute, huroute, hab⟩ := h
  by_cases haround : a <+: b
  · refine .inr ⟨shared, a, b, rest, rest', htroute, huroute, haround, ?_⟩
    rintro rfl
    exact List.lt_irrefl a hab
  · left
    obtain ⟨inner, hinner⟩ := ht.prefix_location (a := a) (by simp [htroute])
    obtain ⟨inner', hinner'⟩ := hu.prefix_location (a := b) (by simp [huroute])
    rw [← hinner, ← hinner']
    exact Location.append_lt_append hab haround

theorem not_stopsAround (ht : t.route.map List.length = List.range t.route.length)
    (hu : u.route.map List.length = List.range u.route.length) :
    ¬StopsAround t.route u.route := by
  rintro ⟨shared, a, b, rest, rest', htroute, huroute, haround, hne⟩
  have hlength : ∀ {p : List Location} {c rest}, p = shared ++ c :: rest →
      p.map List.length = List.range p.length → c.length = shared.length := by
    rintro p c rest rfl hp
    have hget := congrArg (·[shared.length]?) hp
    simpa using hget
  refine hne (haround.eq_of_length ?_)
  rw [hlength htroute ht, hlength huroute hu]

/-! ## Going on -/

theorem Trail.IsFrom.onward (h : t.IsFrom root direct)
    (hls : direct → ∀ l ∈ ls, l.length = 1) : ∀ u ∈ t.onward ls, u.IsFrom root direct := by
  intro u hu
  obtain ⟨l, hl, hul⟩ := List.mem_filterMap.mp hu
  obtain ⟨v, hv, rfl⟩ := Option.map_eq_some_iff.mp hul
  refine ⟨?_, ?_, fun hdirect => ?_⟩
  · show root.at? (t.location ++ l) = some v
    rw [Value.at?_append, h.value, Option.bind_some, hv]
  · refine List.pairwise_append.mpr ⟨h.inward, List.pairwise_singleton _ _, ?_⟩
    intro a ha b hb
    rw [List.mem_singleton.mp hb]
    exact (h.prefix_location ha).trans (List.prefix_append _ _)
  · have hlevels := h.levels hdirect
    have hlocation : t.location.length = t.passed.length := by
      have hget := congrArg (·[t.passed.length]?) hlevels
      simpa [Trail.route] using hget
    have hlast : (t.location ++ l).length = t.route.length := by
      rw [List.length_append, hls hdirect l hl, hlocation, Trail.route, List.length_append,
        List.length_singleton]
    show (t.route ++ [t.location ++ l]).map List.length = List.range (t.route ++ _).length
    rw [List.map_append, hlevels, List.map_singleton, hlast, List.length_append,
      List.length_singleton, List.range_succ]

/-- Trails to places in the order of the document are in order. -/
theorem spread_onward (h : t.IsFrom root direct) (hls : direct → ∀ l ∈ ls, l.length = 1)
    (hincreasing : ls.Pairwise (· < ·)) : Spread root direct t.route (t.onward ls) := by
  refine ⟨h.onward hls, fun u hu => ?_, ?_⟩
  · obtain ⟨l, -, hul⟩ := List.mem_filterMap.mp hu
    obtain ⟨v, -, rfl⟩ := Option.map_eq_some_iff.mp hul
    exact List.prefix_append _ _
  · refine List.Pairwise.filterMap _ (fun l l' hlt u hu u' hu' => ?_) hincreasing
    obtain ⟨v, -, rfl⟩ := Option.map_eq_some_iff.mp hu
    obtain ⟨v', -, rfl⟩ := Option.map_eq_some_iff.mp hu'
    exact ⟨t.route, t.location ++ l, t.location ++ l', [], [], rfl, rfl,
      Location.append_lt_append_left _ hlt⟩

theorem spread_childLocations {positions : List Nat} (h : t.IsFrom root direct)
    (hincreasing : positions.Pairwise (· < ·)) :
    Spread root direct t.route (t.onward (Value.childLocations positions)) := by
  refine spread_onward h (fun _ l hl => ?_) (Value.childLocations_increasing hincreasing)
  obtain ⟨i, -, rfl⟩ := List.mem_map.mp hl
  rfl

theorem spread_children (h : t.IsFrom root direct) : Spread root direct t.route t.children :=
  spread_childLocations h List.pairwise_lt_range

theorem Spread.sublist {kept : List Trail} (h : Spread root direct p found)
    (hkept : kept.Sublist found) : Spread root direct p kept :=
  ⟨fun t ht => h.isFrom t (hkept.subset ht), fun t ht => h.onward t (hkept.subset ht),
    h.ordered.sublist hkept⟩

theorem spread_nil : Spread root direct p [] := ⟨by simp, by simp, .nil⟩

/-- What goes on from a trail is before what goes on from later ones. -/
theorem Spread.append {rest first more : List Trail} (h : Spread root direct p (t :: rest))
    (hfirst : Spread root direct t.route first) (hmore : Spread root direct p more)
    (horigin : ∀ u ∈ more, ∃ t' ∈ rest, t'.route <+: u.route) :
    Spread root direct p (first ++ more) := by
  have hstart : p <+: t.route := h.onward t List.mem_cons_self
  refine ⟨?_, ?_, ?_⟩
  · exact List.forall_mem_append.mpr ⟨hfirst.isFrom, hmore.isFrom⟩
  · exact List.forall_mem_append.mpr
      ⟨fun u hu => hstart.trans (hfirst.onward u hu), hmore.onward⟩
  · refine List.pairwise_append.mpr ⟨hfirst.ordered, hmore.ordered, fun u hu u' hu' => ?_⟩
    obtain ⟨t', ht', hroute⟩ := horigin u' hu'
    exact ((List.pairwise_cons.mp h.ordered).1 t' ht').mono (hfirst.onward u hu) hroute

/-! ## Whatever an action gives -/

/-- All that an action can give has a property. -/
def GivesOnly [Monad m] {α : Type} (x : m α) (Q : α → Prop) : Prop :=
  ∃ y : m { a // Q a }, Subtype.val <$> y = x

section GivesOnly

variable [Monad m] [LawfulMonad m] {α β : Type} {x : m α} {f : α → m β} {Q Q' : α → Prop}
  {R : β → Prop}

theorem GivesOnly.pure {a : α} (h : Q a) : GivesOnly (Pure.pure a : m α) Q :=
  ⟨Pure.pure ⟨a, h⟩, map_pure _ _⟩

theorem GivesOnly.mono (hx : GivesOnly x Q) (h : ∀ a, Q a → Q' a) : GivesOnly x Q' := by
  obtain ⟨y, rfl⟩ := hx
  refine ⟨(fun a => ⟨a.1, h a.1 a.2⟩) <$> y, ?_⟩
  rw [← comp_map]
  rfl

theorem GivesOnly.bind (hx : GivesOnly x Q) (hf : ∀ a, Q a → GivesOnly (f a) R) :
    GivesOnly (x >>= f) R := by
  obtain ⟨y, rfl⟩ := hx
  choose g hg using hf
  refine ⟨y >>= fun a => g a.1 a.2, ?_⟩
  rw [map_bind, bind_map_left]
  exact bind_congr fun a => hg a.1 a.2

theorem GivesOnly.trivial (x : m α) : GivesOnly x fun _ => True := by
  refine ⟨(fun a => ⟨a, True.intro⟩) <$> x, ?_⟩
  rw [← comp_map]
  exact id_map x

end GivesOnly

section Order

variable [Monad m] [LawfulMonad m] {judge : Judge m P}

theorem givesOnly_keepTrails (predicate : P) (ts : List Trail) :
    GivesOnly (keepTrails judge predicate ts) (·.Sublist ts) := by
  induction ts with
  | nil => exact .pure (List.Sublist.refl [])
  | cons t rest ih =>
      refine .bind (.trivial _) fun accepted _ => .bind ih fun kept hkept => .pure ?_
      cases accepted with
      | false => exact hkept.cons t
      | true => exact hkept.cons_cons t

/-- What is found from trails that are in order is in order, and each of it
goes on from one of them. -/
theorem givesOnly_collectTrails {find : Trail → m (List Trail)} {ts : List Trail}
    (h : Spread root direct p ts)
    (hfind : ∀ t ∈ ts, GivesOnly (find t) (Spread root direct t.route)) :
    GivesOnly (collectTrails find ts) fun found =>
      Spread root direct p found ∧ ∀ u ∈ found, ∃ t ∈ ts, t.route <+: u.route := by
  induction ts with
  | nil => exact .pure ⟨spread_nil, by simp⟩
  | cons t rest ih =>
      obtain ⟨ht, hrest⟩ := List.forall_mem_cons.mp hfind
      have hsublist := h.sublist (List.sublist_cons_self t rest)
      refine .bind ht fun first hfirst => .bind (ih hsublist hrest) ?_
      rintro more ⟨hmore, horigin⟩
      refine .pure ⟨h.append hfirst hmore horigin, List.forall_mem_append.mpr ⟨?_, ?_⟩⟩
      · exact fun u hu => ⟨t, List.mem_cons_self, hfirst.onward u hu⟩
      · intro u hu
        obtain ⟨t', ht', hroute⟩ := horigin u hu
        exact ⟨t', List.mem_cons_of_mem t ht', hroute⟩

theorem givesOnly_follow : ∀ (s : Segment P), s.IsForward → (direct → ¬s.IsDescent) →
    ∀ t : Trail, t.IsFrom root direct →
      GivesOnly (follow judge s t) (Spread root direct t.route)
  | .step s, _, _, t, ht => by
      rw [follow]
      refine .bind (.trivial _) fun _ _ => ?_
      cases stepPosition s t.value with
      | ok position =>
          refine .pure (spread_childLocations ht ?_)
          cases position <;> simp
      | error l => exact ⟨(fun _ => ⟨[], spread_nil⟩) <$> judge.overrun l, by rw [← comp_map]; rfl⟩
  | .wildcard, _, _, t, ht => by
      rw [follow]
      exact .pure (spread_children ht)
  | .slice s, hforward, _, t, ht => by
      unfold follow
      split
      · exact .pure (spread_childLocations ht (Slice.positions_increasing hforward))
      · exact .pure spread_nil
  | .filter predicate, _, _, t, ht => by
      rw [follow]
      exact (givesOnly_keepTrails predicate t.children).mono fun _ => (spread_children ht).sublist
  | .descent s, hforward, hdirect, t, ht => by
      -- After a descent nothing is said of levels any more.
      have hnot : ¬direct := fun h => hdirect h trivial
      have hinside : Spread root direct t.route (t.onward t.value.locations) :=
        spread_onward ht (fun h => absurd h hnot) t.value.locations_increasing
      rw [follow]
      refine (givesOnly_collectTrails hinside fun u hu => ?_).mono fun _ hfound => hfound.1
      exact givesOnly_follow s hforward (fun h => absurd h hnot) u (hinside.isFrom u hu)

theorem givesOnly_trailsFrom {segments : List (Segment P)} (hforward : ∀ s ∈ segments, s.IsForward)
    (hdirect : direct → ∀ s ∈ segments, ¬s.IsDescent) (h : Spread root direct p found) :
    GivesOnly (trailsFrom judge segments found) (Spread root direct p) := by
  induction segments generalizing found with
  | nil => exact .pure h
  | cons s rest ih =>
      obtain ⟨hs, hrest⟩ := List.forall_mem_cons.mp hforward
      have hs' : direct → ¬s.IsDescent := fun hd => hdirect hd s List.mem_cons_self
      have hrest' : direct → ∀ s ∈ rest, ¬s.IsDescent := fun hd s' hmem =>
        hdirect hd s' (List.mem_cons_of_mem s hmem)
      rw [trailsFrom]
      refine .bind (givesOnly_collectTrails h fun t ht => ?_) fun _ hfound =>
        ih hrest hrest' hfound.1
      exact givesOnly_follow s hs hs' t (h.isFrom t ht)

/-- What holds of the trails that a query takes. -/
structure InOrder (root : Value) (segments : List (Segment P)) (found : List Trail) : Prop where
  values : ∀ t ∈ found, root.at? t.location = some t.value
  routes : found.Pairwise fun t u => PartsBefore t.route u.route
  locations : found.Pairwise fun t u =>
    t.location < u.location ∨ StopsAround t.route u.route
  direct : (∀ s ∈ segments, ¬s.IsDescent) → found.Pairwise fun t u => t.location < u.location

/-- The matches of a query are in the order of their ways. They are in the
order of the document, but for matches whose way stops around the way of a
match after them; and without descents there are none of these. -/
theorem run_inOrder (judge : Judge m P) (hstops : judge.Stops) (segments : List (Segment P))
    (hforward : ∀ s ∈ segments, s.IsForward) (root : Value) :
    List.map Trail.value <$> trails judge segments root = run judge segments root ∧
      GivesOnly (trails judge segments root) (InOrder root segments) := by
  refine ⟨values_trails hstops segments root, ?_⟩
  have hstart : Spread root (∀ s ∈ segments, ¬s.IsDescent) [] [.start root] := by
    refine ⟨fun t ht => ?_, fun _ _ => List.nil_prefix, List.pairwise_singleton _ _⟩
    obtain rfl := List.mem_singleton.mp ht
    exact ⟨rfl, List.pairwise_singleton _ _, fun _ => rfl⟩
  refine (givesOnly_trailsFrom hforward (fun h => h) hstart).mono fun found hfound => ?_
  refine ⟨fun t ht => (hfound.isFrom t ht).value, hfound.ordered, ?_, fun hdirect => ?_⟩
  · exact hfound.ordered.imp_of_mem fun ht hu h =>
      location_lt (hfound.isFrom _ ht) (hfound.isFrom _ hu) h
  · refine hfound.ordered.imp_of_mem fun {t u} ht hu h => ?_
    have ht := hfound.isFrom t ht
    have hu := hfound.isFrom u hu
    exact (location_lt ht hu h).resolve_right
      (not_stopsAround (ht.levels hdirect) (hu.levels hdirect))

/-- The judge of evaluation fails at a limit. -/
theorem judge_stops {σ : Type} (s : Scope) :
    (Expr.judge s : Judge (fun α => Action σ α) Filter).Stops :=
  fun l => ⟨.fail (.limit l), rfl⟩

def namesBelow : List (Segment Filter) :=
  [.step (.field "crew"), .slice ⟨some 0, none, some 2⟩, .descent (.step (.field "name"))]

def ship : Value :=
  .obj [("crew", .arr [.obj [("name", .str "Ada"), ("mate", .obj [("name", .str "Bo")])]])]

theorem run_inOrder_ship :
    (Expr.judge (.ofFields []) : Judge (fun α => Action Unit α) Filter).Stops ∧
      (∀ s ∈ namesBelow, s.IsForward) ∧
      List.map Trail.value <$> trails (Expr.judge (.ofFields [])) namesBelow ship =
        (run (Expr.judge (.ofFields [])) namesBelow ship : Action Unit (List Value)) ∧
      GivesOnly (trails (Expr.judge (.ofFields []) : Judge (fun α => Action Unit α) Filter)
        namesBelow ship) (InOrder ship namesBelow) := by
  have hstops := judge_stops (σ := Unit) (.ofFields [])
  have hforward : ∀ s ∈ namesBelow, s.IsForward := by
    simp [namesBelow, Segment.IsForward]
  exact ⟨hstops, hforward, run_inOrder _ hstops namesBelow hforward ship⟩

/-- A judge that accepts every candidate. -/
def lenient : Judge (Except Limit) Filter where
  accepts _ _ := .ok true
  overrun l := .error l

def nested : Value := .obj [("a", .obj [("b", .int 1)]), ("c", .int 2)]

/-- All that is below a value is not found in the order of the document: what is
inside the first member comes behind the second one. -/
theorem descent_disorders :
    parse "$..*" = .ok [.descent .wildcard] ∧
      run lenient [.descent .wildcard] nested =
        .ok [.obj [("b", .int 1)], .int 2, .int 1] ∧
      List.map Trail.location <$> trails lenient [.descent .wildcard] nested =
        .ok [[0], [1], [0, 0]] ∧
      ¬[[0], [1], [0, 0]].Pairwise fun l l' : Location => ¬l' < l := by
  refine ⟨?_, rfl, rfl, by decide⟩
  cbv

end Order

end Query

end Conduit
