import Conduit.Proofs.Eval.Verdicts
import Conduit.Proofs.Query.Printer

/-!
# What a descent finds

A descent applies its segment to a value and to everything inside it. When the
segment leads from a value to some of its children, each match has one location,
that of the child: it is found from its parent, and from nowhere else. So a descent
finds each child that the segment selects from its parent, at any depth, and finds
it once.
-/

namespace Conduit

/-! ## Every place is listed -/

namespace Value

theorem mem_locationsOfItems {xs : List Value} {i j : Nat} {l : Location} {x : Value}
    (hx : xs[j]? = some x) (hl : l ∈ x.locations) :
    (i + j) :: l ∈ locationsOfItems i xs := by
  induction xs generalizing i j with
  | nil => cases hx
  | cons y rest ih =>
      rw [locationsOfItems, List.mem_append]
      cases j with
      | zero =>
          cases hx
          exact .inl (List.mem_map_of_mem hl)
      | succ j =>
          right
          have hrest := ih (i := i + 1) (j := j) hx
          rwa [Nat.add_right_comm] at hrest

theorem mem_locations {l : Location} {v u : Value} (h : v.at? l = some u) : l ∈ v.locations := by
  induction l generalizing v with
  | nil =>
      rw [locations_eq]
      exact List.mem_cons_self
  | cons i rest ih =>
      obtain ⟨c, hc, hrest⟩ := Option.bind_eq_some_iff.mp h
      rw [locations_eq, ← Nat.zero_add i]
      exact List.mem_cons_of_mem _ (mem_locationsOfItems hc (ih hrest))

/-- All parts of a value with their locations, in the order of the document. -/
def places (v : Value) : List (Location × Value) :=
  v.locations.filterMap fun l => (v.at? l).map fun u => (l, u)

theorem mem_places_iff {l : Location} {v u : Value} : (l, u) ∈ v.places ↔ v.at? l = some u := by
  simp only [places, List.mem_filterMap, Option.map_eq_some_iff, Prod.mk.injEq]
  constructor
  · rintro ⟨l, -, u, hu, rfl, rfl⟩
    exact hu
  · exact fun h => ⟨l, mem_locations h, u, h, rfl, rfl⟩

theorem places_nodup (v : Value) : (v.places.map Prod.fst).Nodup := by
  rw [places, List.map_filterMap]
  refine List.Pairwise.filterMap _ (fun l l' hlt p hp q hq => ?_) v.locations_increasing
  simp only [Option.map_map, Option.map_eq_some_iff, Function.comp_apply] at hp hq
  obtain ⟨_, -, rfl⟩ := hp
  obtain ⟨_, -, rfl⟩ := hq
  rintro rfl
  exact List.lt_irrefl _ hlt

theorem places_values (v : Value) : v.places.map Prod.snd = v.descendants := by
  rw [places, List.map_filterMap, ← filterMap_locations]
  refine List.filterMap_congr fun l _ => ?_
  rw [Option.map_map]
  exact Option.map_id_apply

/-! ## Keys -/

/-- The names of the children of an object, in order; a key that is no text is no
name. -/
def keys : Value → List (Option String)
  | .obj fs => fs.map fun f => some f.1
  | .mapping es => es.map fun e => match e.1 with
    | .str k => some k
    | _ => none
  | _ => []

end Value

/-! ## One step down -/

namespace Segment

variable {P : Type}

/-- A segment that leads from a value to children of it, without a condition. -/
def TakesOneStep : Segment P → Prop
  | .step _ => True
  | .wildcard => True
  | _ => False

/-- The segment selects the child of `v` at position `i`: every child, the first one
under a name, the item whose position is written in digits, or the item at an index,
which counts from the end when it is negative. -/
def Selects : Segment P → Value → Nat → Prop
  | .wildcard, v, i => i < v.children.length
  | .step (.field name), .arr xs, i =>
    Value.isPosition name = true ∧ Text.decimalValue name.toList = i ∧ i < xs.length
  | .step (.field name), v, i => v.keys.idxOf? (some name) = some i
  | .step (.index k), .arr xs, i => i < xs.length ∧ (k = i ∨ k = i - xs.length)
  | _, _, _ => False

end Segment

namespace Query

open Action (EndsAs)

variable {s : Scope} {inner : Segment Filter}

/-- The positions of the children that a segment of one step leads to. -/
def childPositions : Segment Filter → Value → Except Limit (List Nat)
  | .step st, v => (stepPosition st v).map Option.toList
  | _, v => .ok (List.range v.children.length)

theorem select_eq_map (hinner : inner.TakesOneStep) (v : Value) :
    select (verdicts s) inner v =
      (childPositions inner v).map fun positions => positions.filterMap (v.children[·]?) := by
  cases inner with
  | step st =>
      rw [select, selectStep_eq, childPositions]
      cases stepPosition st v with
      | ok position =>
          show Except.ok _ = Except.ok (position.toList.filterMap _)
          rw [filterMap_toList]
      | error l => rfl
  | wildcard =>
      show Except.ok v.children = Except.ok _
      dsimp only
      rw [List.range_eq_range', Slice.filterMap_range', List.drop_zero, List.take_length]
  | _ => exact hinner.elim

theorem idxOf?_map_eq {α : Type} (key : α → Option String) (xs : List α) (name : String) :
    (xs.map key).idxOf? (some name) = xs.findIdx? fun x => key x == some name :=
  List.findIdx?_map

theorem stepPosition_field_eq (name : String) {v : Value} (hv : ∀ xs, v ≠ .arr xs) :
    stepPosition (.field name) v = .ok (v.keys.idxOf? (some name)) := by
  cases v with
  | arr xs => exact absurd rfl (hv xs)
  | obj fs =>
      rw [Value.keys, idxOf?_map_eq]
      rfl
  | mapping es =>
      rw [Value.keys, idxOf?_map_eq, stepPosition]
      refine congrArg (fun p => Except.ok (es.findIdx? p)) (funext fun e => ?_)
      obtain ⟨k, v⟩ := e
      cases k <;> rfl
  | _ => rfl

theorem keys_length_le (v : Value) : v.keys.length ≤ v.children.length := by
  cases v <;> simp [Value.keys, Value.children, Fields.values]

theorem length_of_idxOf? {v : Value} {name : String} {i : Nat}
    (h : v.keys.idxOf? (some name) = some i) : i < v.children.length := by
  obtain ⟨hi, -⟩ := List.idxOf?_eq_some_iff.mp h
  exact Nat.lt_of_lt_of_le hi (keys_length_le v)

/-- A step that runs past no limit leads to the child that it selects. -/
theorem stepPosition_eq_some_iff {st : Step} {v : Value} {position : Option Nat}
    (h : stepPosition st v = .ok position) (i : Nat) :
    position = some i ∧ i < v.children.length ↔
      (Segment.step st : Segment Filter).Selects v i := by
  cases st with
  | field name =>
      cases v with
      | arr xs =>
          rw [stepPosition] at h
          by_cases hname : Value.isPosition name
          · rw [if_pos hname, Value.positionOf] at h
            split at h <;> cases h
            simp [Segment.Selects, hname, Value.children]
          · rw [if_neg hname] at h
            cases h
            simp [Segment.Selects, hname]
      | _ =>
          rw [stepPosition_field_eq name (by simp)] at h
          cases h
          exact ⟨And.left, fun hi => ⟨hi, length_of_idxOf? hi⟩⟩
  | index k =>
      cases v with
      | arr xs =>
          cases h
          simp only [Segment.Selects, Value.children]
          split
          · simp only [Option.some.injEq]
            omega
          · split
            · simp only [Option.some.injEq]
              omega
            · simp only [reduceCtorEq, false_and, false_iff]
              omega
      | _ =>
          cases h
          simp [Segment.Selects]

theorem childPositions_step {st : Step} {v : Value} {positions : List Nat}
    (h : childPositions (.step st) v = .ok positions) :
    ∃ position, stepPosition st v = .ok position ∧ positions = position.toList := by
  rw [childPositions] at h
  cases hposition : stepPosition st v with
  | error l =>
      rw [hposition] at h
      cases h
  | ok position =>
      rw [hposition] at h
      cases h
      exact ⟨position, rfl, rfl⟩

theorem childPositions_nodup {v : Value} {positions : List Nat}
    (h : childPositions inner v = .ok positions) : positions.Nodup := by
  cases inner with
  | step st =>
      obtain ⟨position, -, rfl⟩ := childPositions_step h
      cases position <;> simp
  | _ =>
      cases h
      exact List.nodup_range

theorem mem_childPositions_iff (hinner : inner.TakesOneStep) {v : Value} {positions : List Nat}
    (h : childPositions inner v = .ok positions) (i : Nat) :
    i ∈ positions ∧ i < v.children.length ↔ inner.Selects v i := by
  cases inner with
  | step st =>
      obtain ⟨position, hposition, rfl⟩ := childPositions_step h
      rw [Option.mem_toList]
      exact stepPosition_eq_some_iff hposition i
  | wildcard =>
      cases h
      simp [Segment.Selects]
  | _ => exact hinner.elim

theorem childPositions_eq_error_iff (hinner : inner.TakesOneStep) {v : Value} {l : Limit} :
    childPositions inner v = .error l ↔ ∃ st, inner = .step st ∧ st.Exceeds l v := by
  cases inner with
  | step st =>
      simp only [Segment.step.injEq, exists_eq_left', ← Step.selectStep_eq_error_iff]
      rw [childPositions, selectStep_eq, map_eq_error_iff, map_eq_error_iff]
  | wildcard => simp [childPositions]
  | _ => exact hinner.elim

/-! ## From several places -/

/-- What is found from values at some places: the children that the segment selects,
each at one location and listed once. -/
structure Finds (inner : Segment Filter) (places found : List (Location × Value)) : Prop where
  nodup : (found.map Prod.fst).Nodup
  mem_iff : ∀ l v, (l, v) ∈ found ↔
    ∃ p u i, (p, u) ∈ places ∧ l = p ++ [i] ∧ inner.Selects u i ∧ u.children[i]? = some v

/-- What is found from one place. -/
theorem exists_finds_singleton (s : Scope) (hinner : inner.TakesOneStep) (p : Location) {u : Value}
    {positions : List Nat} (h : childPositions inner u = .ok positions) :
    ∃ found, select (verdicts s) inner u = .ok (found.map Prod.snd) ∧
      Finds inner [(p, u)] found := by
  refine ⟨positions.filterMap fun i => (u.children[i]?).map fun v => (p ++ [i], v), ?_, ?_, ?_⟩
  · rw [select_eq_map hinner, h, List.map_filterMap]
    refine congrArg Except.ok (List.filterMap_congr fun i _ => ?_)
    rw [Option.map_map]
    exact Option.map_id_apply.symm
  · rw [List.map_filterMap]
    refine List.Pairwise.filterMap _ (fun i j hij l hl l' hl' => ?_) (childPositions_nodup h)
    simp only [Option.map_map, Option.map_eq_some_iff, Function.comp_apply] at hl hl'
    obtain ⟨_, -, rfl⟩ := hl
    obtain ⟨_, -, rfl⟩ := hl'
    exact fun heq => hij (List.singleton_inj.mp (List.append_cancel_left heq))
  · intro l v
    simp only [List.mem_filterMap, Option.map_eq_some_iff, Prod.mk.injEq]
    constructor
    · rintro ⟨i, hi, v, hv, rfl, rfl⟩
      refine ⟨p, u, i, List.mem_singleton.mpr rfl, rfl, ?_, hv⟩
      exact (mem_childPositions_iff hinner h i).mp ⟨hi, (List.getElem?_eq_some_iff.mp hv).1⟩
    · rintro ⟨p', u', i, hplace, rfl, hselects, hv⟩
      cases List.mem_singleton.mp hplace
      exact ⟨i, ((mem_childPositions_iff hinner h i).mpr hselects).1, v, hv, rfl, rfl⟩

/-- What is found from one place and what is found from the others. -/
theorem Finds.append {p : Location} {u : Value} {rest first more : List (Location × Value)}
    (hfirst : Finds inner [(p, u)] first) (hmore : Finds inner rest more)
    (hp : p ∉ rest.map Prod.fst) : Finds inner ((p, u) :: rest) (first ++ more) := by
  refine ⟨?_, fun l v => ?_⟩
  · rw [List.map_append]
    refine List.nodup_append.mpr ⟨hfirst.nodup, hmore.nodup, fun l hl l' hl' heq => hp ?_⟩
    obtain ⟨⟨l, v⟩, hfound, rfl⟩ := List.mem_map.mp hl
    obtain ⟨⟨l', v'⟩, hfound', rfl⟩ := List.mem_map.mp hl'
    obtain ⟨p', u', i, hplace, rfl, -, -⟩ := (hfirst.mem_iff l v).mp hfound
    obtain ⟨p'', u'', j, hplace', rfl, -, -⟩ := (hmore.mem_iff l' v').mp hfound'
    cases List.mem_singleton.mp hplace
    obtain ⟨rfl, -⟩ := List.append_inj' heq rfl
    exact List.mem_map_of_mem hplace'
  · rw [List.mem_append, hfirst.mem_iff, hmore.mem_iff]
    simp only [List.mem_cons, List.not_mem_nil, or_false, or_and_right, exists_or]

/-- What is found from several places, if nothing there exceeds a limit. -/
theorem exists_finds (s : Scope) (hinner : inner.TakesOneStep) {places : List (Location × Value)}
    (hplaces : (places.map Prod.fst).Nodup)
    (h : ∀ place ∈ places, ∃ positions, childPositions inner place.2 = .ok positions) :
    ∃ found, collect (select (verdicts s) inner) (places.map Prod.snd) =
      .ok (found.map Prod.snd) ∧ Finds inner places found := by
  induction places with
  | nil => exact ⟨[], rfl, List.nodup_nil, by simp⟩
  | cons place rest ih =>
      obtain ⟨p, u⟩ := place
      obtain ⟨hp, hrest⟩ := List.nodup_cons.mp hplaces
      obtain ⟨⟨positions, hpositions⟩, hall⟩ := List.forall_mem_cons.mp h
      obtain ⟨first, hselect, hfirst⟩ := exists_finds_singleton s hinner p hpositions
      obtain ⟨more, hcollect, hmore⟩ := ih hrest hall
      refine ⟨first ++ more, ?_, hfirst.append hmore hp⟩
      rw [List.map_cons, collect, hselect, hcollect, List.map_append]
      rfl

/-- Where the segment exceeds one limit only, the collecting stops at it. -/
theorem collect_eq_error {find : Value → Except Limit (List Value)} {vs : List Value} {v : Value}
    {l : Limit} (hv : v ∈ vs) (h : find v = .error l)
    (honly : ∀ u l', find u = .error l' → l' = l) : collect find vs = .error l := by
  induction vs with
  | nil => cases hv
  | cons u rest ih =>
      rw [collect]
      cases hu : find u with
      | error l' => rw [honly u l' hu]; rfl
      | ok first =>
          rcases List.mem_cons.mp hv with rfl | hrest
          · rw [h] at hu
            cases hu
          · rw [ih hrest]
            rfl

/-! ## From everything inside a value -/

theorem run_descent_eq (judge : Judge (Except Limit) Filter) (root : Value) :
    run judge [.descent inner] root = collect (select judge inner) root.descendants := by
  rw [run_single, select]

/-- A descent finds every part of `root` that the segment selects from its parent,
each at one location and once; unless the segment exceeds a limit at some part, which
then ends the query. -/
theorem run_descent_complete (s : Scope) {inner : Segment Filter} (hinner : inner.TakesOneStep)
    (root : Value) :
    ((∀ st l p u, inner = .step st → root.at? p = some u → ¬st.Exceeds l u) →
      ∃ found : List (Location × Value), (found.map Prod.fst).Nodup ∧
        (∀ l v, (l, v) ∈ found ↔ root.at? l = some v ∧
          ∃ p u i, l = p ++ [i] ∧ root.at? p = some u ∧ inner.Selects u i) ∧
        ∀ σ : Type, EndsAs Expr.stopAt
          (run (Expr.judge s) [.descent inner] root : Action σ (List Value))
          (.ok (found.map Prod.snd))) ∧
    ∀ st l p u, inner = .step st → root.at? p = some u → st.Exceeds l u →
      ∀ σ : Type, EndsAs Expr.stopAt
        (run (Expr.judge s) [.descent inner] root : Action σ (List Value)) (.error l) := by
  have hrun : ∀ {r : Except Limit (List Value)},
      collect (select (verdicts s) inner) (root.places.map Prod.snd) = r → ∀ σ : Type,
      EndsAs Expr.stopAt (run (Expr.judge s) [.descent inner] root : Action σ (List Value)) r := by
    rintro r rfl σ
    rw [Value.places_values, ← run_descent_eq]
    exact Expr.run_endsAs s _ root
  constructor
  · intro hbelow
    have hpositions : ∀ place ∈ root.places,
        ∃ positions, childPositions inner place.2 = .ok positions := by
      rintro ⟨p, u⟩ hplace
      cases h : childPositions inner u with
      | ok positions => exact ⟨positions, rfl⟩
      | error l =>
          obtain ⟨st, hst, hexceeds⟩ := (childPositions_eq_error_iff hinner).mp h
          exact absurd hexceeds (hbelow st l p u hst (Value.mem_places_iff.mp hplace))
    obtain ⟨found, hcollect, hfinds⟩ := exists_finds s hinner root.places_nodup hpositions
    refine ⟨found, hfinds.nodup, fun l v => ?_, hrun hcollect⟩
    rw [hfinds.mem_iff]
    constructor
    · rintro ⟨p, u, i, hplace, rfl, hselects, hv⟩
      have hu := Value.mem_places_iff.mp hplace
      refine ⟨?_, p, u, i, rfl, hu, hselects⟩
      rw [Value.at?_append, hu, Option.bind_some, Value.at?_child, hv]
    · rintro ⟨hv, p, u, i, rfl, hu, hselects⟩
      refine ⟨p, u, i, Value.mem_places_iff.mpr hu, rfl, hselects, ?_⟩
      rwa [Value.at?_append, hu, Option.bind_some, Value.at?_child] at hv
  · rintro st l p u rfl hu hexceeds
    -- A name has one length, so the segment exceeds the same limit wherever it does.
    have hselect : ∀ v l', select (verdicts s) (.step st) v = .error l' ↔ st.Exceeds l' v := by
      intro v l'
      rw [select_eq_map hinner, map_eq_error_iff, childPositions_eq_error_iff hinner]
      simp
    refine hrun (collect_eq_error ?_ ((hselect u l).mpr hexceeds) fun v l' hv => ?_)
    · exact List.mem_map_of_mem (Value.mem_places_iff.mpr hu)
    · obtain ⟨name, -, rfl, -, rfl⟩ := hexceeds.inv
      obtain ⟨_, -, heq, -, rfl⟩ := ((hselect v l').mp hv).inv
      cases heq
      rfl

/-- Rows under names and in an array. -/
def rows : Value :=
  .obj [("0", .arr [.obj [("0", .int 1)], .int 2]), ("a", .obj [("b", .arr [])])]

theorem run_descent_complete_rows :
    (Segment.step (.field "0") : Segment Filter).TakesOneStep ∧
      (∀ st l p u, (Segment.step (.field "0") : Segment Filter) = .step st →
        rows.at? p = some u → ¬st.Exceeds l u) ∧
      ∃ found : List (Location × Value), (found.map Prod.fst).Nodup ∧
        (∀ l v, (l, v) ∈ found ↔ rows.at? l = some v ∧ ∃ p u i, l = p ++ [i] ∧
          rows.at? p = some u ∧ (Segment.step (.field "0") : Segment Filter).Selects u i) ∧
        ∀ σ : Type, EndsAs Expr.stopAt
          (run (Expr.judge (.ofFields [])) [.descent (.step (.field "0"))] rows :
            Action σ (List Value)) (.ok (found.map Prod.snd)) := by
  have hone : (Segment.step (.field "0") : Segment Filter).TakesOneStep := trivial
  have hbelow : ∀ st l p u, (Segment.step (.field "0") : Segment Filter) = .step st →
      rows.at? p = some u → ¬st.Exceeds l u := by
    rintro st l p u hst - hexceeds
    cases hst
    unfold Step.Exceeds at hexceeds
    split at hexceeds
    · next heq => exact absurd hexceeds.2.1 (by cases heq; decide)
    · exact hexceeds
  exact ⟨hone, hbelow, (run_descent_complete (.ofFields []) hone rows).1 hbelow⟩

/-! ### Positions that are too long -/

theorem escape_eq_self {q : Char} {cs : List Char} (h : ∀ c ∈ cs, c ≠ '\\' ∧ c ≠ q) :
    Text.escape q cs = cs := by
  induction cs with
  | nil => rfl
  | cons c rest ih =>
      obtain ⟨hc, hrest⟩ := List.forall_mem_cons.mp h
      rw [Text.escape_cons, ih hrest, if_neg (not_or.mpr hc)]
      rfl

theorem parse_descent_quoted {name : String} (h : ∀ c ∈ name.toList, c ≠ '\\' ∧ c ≠ '\'') :
    parse ("$..['" ++ name ++ "']") = .ok [.descent (.step (.field name))] := by
  have hscans : Scans ('.' :: '.' :: '[' :: '\'' :: (Text.escape '\'' name.toList ++ ['\'', ']']))
      ([.descent (.step (.field name))].flatMap (segmentLexemes (P := Filter) fun _ => true)) := by
    have hclose := Scans.nil.mark (m := .closeBracket) rfl
    exact ((hclose.quoted name).mark (m := .openBracket) rfl).mark (m := .descend) rfl
  have htext : ("$..['" ++ name ++ "']").toList =
      '$' :: '.' :: '.' :: '[' :: '\'' :: (Text.escape '\'' name.toList ++ ['\'', ']']) := by
    rw [escape_eq_self h]
    simp
  obtain ⟨toks, htoks, hparse⟩ := parse_root htext hscans
  rw [hparse]
  exact segments_written _ (List.forall_mem_singleton.mpr trivial) htoks

theorem run_descent_field {name : String} (hname : Value.isPosition name = true)
    (hlong : Limit.numeralDigits < name.length) :
    run lenient [.descent (.step (.field name))] (.arr []) = .error (.longNumeral name.length) := by
  have hselect : selectStep (.field name) (.arr []) = .error (.longNumeral name.length) :=
    Step.selectStep_eq_error_iff.mpr ⟨hname, hlong, rfl⟩
  rw [run_descent_eq, Value.descendants, collect, select, hselect]
  rfl

/-- A position of one digit too many. -/
def farPosition : String := String.ofList (List.replicate (Limit.numeralDigits + 1) '1')

/-- The segment selects nothing of an empty array, and yet the query does not come to
nothing. -/
theorem descent_farPosition_stops :
    parse ("$..['" ++ farPosition ++ "']") = .ok [.descent (.step (.field farPosition))] ∧
      (∀ i, ¬(Segment.step (.field farPosition) : Segment Filter).Selects (.arr []) i) ∧
      run lenient [.descent (.step (.field farPosition))] (.arr []) =
        .error (.longNumeral (Limit.numeralDigits + 1)) := by
  have hname : farPosition.toList = List.replicate (Limit.numeralDigits + 1) '1' :=
    String.toList_ofList
  have hmem : ∀ c ∈ farPosition.toList, c = '1' := fun c hc =>
    List.eq_of_mem_replicate (hname ▸ hc)
  have hlength : farPosition.length = Limit.numeralDigits + 1 := by
    rw [← String.length_toList, hname, List.length_replicate]
  have hposition : Value.isPosition farPosition = true := by
    rw [Value.isPosition, Bool.and_eq_true, decide_eq_true_eq, List.all_eq_true]
    refine ⟨fun hempty => ?_, fun c hc => by rw [hmem c hc]; rfl⟩
    rw [hempty] at hlength
    cases hlength
  refine ⟨parse_descent_quoted fun c hc => ?_, fun i hi => absurd hi.2.2 (Nat.not_lt_zero i), ?_⟩
  · rw [hmem c hc]
    decide
  · rw [run_descent_field hposition (by omega), hlength]

end Query

end Conduit
