import Conduit.Proofs.Slice
import Conduit.Query.Select
import Mathlib.Data.List.Basic

/-!
# Places in a value

A part of a value has a location: which of the children to take, from the value
inwards. The lexicographic order of locations is the order of the document, in
which a container stands before its contents and an earlier member, with all
inside it, before a later one. In this order the descendants of a value are
listed.
-/

namespace Conduit

/-- The positions of the children to take, the outermost first. -/
abbrev Location := List Nat

namespace Location

variable {l l' inner inner' : Location} {i j : Nat}

theorem nil_lt_cons (i : Nat) (l : Location) : ([] : Location) < i :: l := List.Lex.nil

theorem cons_lt_cons : i :: l < j :: l' ↔ i < j ∨ i = j ∧ l < l' := List.cons_lt_cons_iff

theorem append_lt_append_left (l : Location) (h : inner < inner') : l ++ inner < l ++ inner' := by
  induction l with
  | nil => exact h
  | cons i rest ih => exact cons_lt_cons.mpr (.inr ⟨rfl, ih⟩)

/-- If one place comes before another one and does not contain it, then all
inside the one comes before all inside the other. -/
theorem append_lt_append (h : l < l') (hinside : ¬l <+: l') : l ++ inner < l' ++ inner' := by
  induction l generalizing l' with
  | nil => exact absurd (List.nil_prefix) hinside
  | cons i rest ih =>
      cases l' with
      | nil => cases h
      | cons j rest' =>
          refine cons_lt_cons.mpr ?_
          rcases cons_lt_cons.mp h with hlt | ⟨rfl, hrest⟩
          · exact .inl hlt
          · refine .inr ⟨rfl, ih hrest fun hstart => hinside ?_⟩
            exact List.cons_prefix_cons.mpr ⟨rfl, hstart⟩

end Location

namespace Value

/-- The part of a value at a location. -/
def at? : Location → Value → Option Value
  | [], v => some v
  | i :: rest, v => (v.children[i]?).bind (at? rest)

theorem at?_append (l inner : Location) (v : Value) :
    at? (l ++ inner) v = (at? l v).bind (at? inner) := by
  induction l generalizing v with
  | nil => rfl
  | cons i rest ih =>
      show (v.children[i]?).bind (at? (rest ++ inner)) = ((v.children[i]?).bind (at? rest)).bind _
      rw [Option.bind_assoc]
      exact congrArg _ (funext ih)

theorem at?_child (i : Nat) (v : Value) : at? [i] v = v.children[i]? :=
  Option.bind_fun_some _

/-- The locations of the children at some positions. -/
def childLocations (positions : List Nat) : List Location := positions.map fun i => [i]

theorem filterMap_childLocations (positions : List Nat) (v : Value) :
    (childLocations positions).filterMap (at? · v) = positions.filterMap (v.children[·]?) := by
  rw [childLocations, List.filterMap_map]
  exact List.filterMap_congr fun i _ => at?_child i v

theorem childLocations_increasing {positions : List Nat} (h : positions.Pairwise (· < ·)) :
    (childLocations positions).Pairwise (· < ·) :=
  List.pairwise_map.mpr (h.imp fun hij => Location.cons_lt_cons.mpr (.inl hij))

/-! ## All places -/

mutual

/-- The locations of a value and of all inside it, each before those of its own
contents. -/
def locations : Value → List Location
  | .arr xs => [] :: locationsOfItems 0 xs
  | .obj fs => [] :: locationsOfFields 0 fs
  | .mapping es => [] :: locationsOfEntries 0 es
  | _ => [[]]

/-- The locations of all inside the children from the `i`-th on. -/
def locationsOfItems (i : Nat) : List Value → List Location
  | [] => []
  | x :: xs => (locations x).map (i :: ·) ++ locationsOfItems (i + 1) xs

def locationsOfFields (i : Nat) : List (String × Value) → List Location
  | [] => []
  | (_, v) :: rest => (locations v).map (i :: ·) ++ locationsOfFields (i + 1) rest

def locationsOfEntries (i : Nat) : List (Value × Value) → List Location
  | [] => []
  | (_, v) :: rest => (locations v).map (i :: ·) ++ locationsOfEntries (i + 1) rest

end

theorem locationsOfFields_eq (i : Nat) (fs : List (String × Value)) :
    locationsOfFields i fs = locationsOfItems i (fs.map Prod.snd) := by
  induction fs generalizing i with
  | nil => simp [locationsOfFields, locationsOfItems]
  | cons f rest ih => simp [locationsOfFields, locationsOfItems, ih]

theorem locationsOfEntries_eq (i : Nat) (es : List (Value × Value)) :
    locationsOfEntries i es = locationsOfItems i (es.map Prod.snd) := by
  induction es generalizing i with
  | nil => simp [locationsOfEntries, locationsOfItems]
  | cons e rest ih => simp [locationsOfEntries, locationsOfItems, ih]

theorem descendantsOfFields_eq (fs : List (String × Value)) :
    descendantsOfFields fs = descendantsOfItems (fs.map Prod.snd) := by
  induction fs with
  | nil => simp [descendantsOfFields, descendantsOfItems]
  | cons f rest ih => simp [descendantsOfFields, descendantsOfItems, ih]

theorem descendantsOfEntries_eq (es : List (Value × Value)) :
    descendantsOfEntries es = descendantsOfItems (es.map Prod.snd) := by
  induction es with
  | nil => simp [descendantsOfEntries, descendantsOfItems]
  | cons e rest ih => simp [descendantsOfEntries, descendantsOfItems, ih]

theorem locations_eq (v : Value) : v.locations = [] :: locationsOfItems 0 v.children := by
  cases v with
  | arr xs => rw [locations, children]
  | obj fs => rw [locations, locationsOfFields_eq, children, Fields.values]
  | mapping es => rw [locations, locationsOfEntries_eq, children]
  | _ => rw [locations] <;> simp [children, locationsOfItems]

theorem descendants_eq (v : Value) : v.descendants = v :: descendantsOfItems v.children := by
  cases v with
  | arr xs => rw [descendants, children]
  | obj fs => rw [descendants, descendantsOfFields_eq, children, Fields.values]
  | mapping es => rw [descendants, descendantsOfEntries_eq, children]
  | _ => rw [descendants] <;> simp [children, descendantsOfItems]

mutual

/-- What holds of a value as soon as it holds of its children holds of all
values. -/
theorem induction_on_children {motive : Value → Prop}
    (h : ∀ v : Value, (∀ c ∈ v.children, motive c) → motive v) : ∀ v, motive v
  | .arr xs => h _ (induction_on_items h xs)
  | .obj fs => h _ (induction_on_fields h fs)
  | .mapping es => h _ (induction_on_entries h es)
  | .null => h _ (by simp [children])
  | .bool _ => h _ (by simp [children])
  | .number _ => h _ (by simp [children])
  | .str _ => h _ (by simp [children])
  | .date _ => h _ (by simp [children])

theorem induction_on_items {motive : Value → Prop}
    (h : ∀ v : Value, (∀ c ∈ v.children, motive c) → motive v) :
    ∀ xs : List Value, ∀ c ∈ xs, motive c
  | [] => by simp
  | x :: xs => List.forall_mem_cons.mpr ⟨induction_on_children h x, induction_on_items h xs⟩

theorem induction_on_fields {motive : Value → Prop}
    (h : ∀ v : Value, (∀ c ∈ v.children, motive c) → motive v) :
    ∀ fs : List (String × Value), ∀ c ∈ fs.map Prod.snd, motive c
  | [] => by simp
  | (_, v) :: rest =>
      List.forall_mem_cons.mpr ⟨induction_on_children h v, induction_on_fields h rest⟩

theorem induction_on_entries {motive : Value → Prop}
    (h : ∀ v : Value, (∀ c ∈ v.children, motive c) → motive v) :
    ∀ es : List (Value × Value), ∀ c ∈ es.map Prod.snd, motive c
  | [] => by simp
  | (_, v) :: rest =>
      List.forall_mem_cons.mpr ⟨induction_on_children h v, induction_on_entries h rest⟩

end

/-- At the locations of a value are its descendants. -/
theorem filterMap_locations (v : Value) : v.locations.filterMap (at? · v) = v.descendants := by
  induction v using induction_on_children with
  | h v ih =>
      have hitems : ∀ before xs, v.children = before ++ xs →
          (locationsOfItems before.length xs).filterMap (at? · v) = descendantsOfItems xs := by
        intro before xs
        induction xs generalizing before with
        | nil => simp [locationsOfItems, descendantsOfItems]
        | cons x rest ihrest =>
            intro hv
            have hx : v.children[before.length]? = some x := by simp [hv]
            have hhead : ((locations x).map (before.length :: ·)).filterMap (at? · v) =
                descendants x := by
              rw [List.filterMap_map, ← ih x (by simp [hv])]
              refine List.filterMap_congr fun l _ => ?_
              show (v.children[before.length]?).bind (at? l) = _
              rw [hx, Option.bind_some]
            have htail := ihrest (before ++ [x]) (by simp [hv])
            rw [List.length_append, List.length_singleton] at htail
            rw [locationsOfItems, List.filterMap_append, hhead, htail, descendantsOfItems]
      rw [locations_eq, descendants_eq, ← hitems [] v.children rfl]
      rfl

theorem exists_of_mem_locationsOfItems {xs : List Value} {i : Nat} {l : Location}
    (h : l ∈ locationsOfItems i xs) : ∃ j inner, i ≤ j ∧ l = j :: inner := by
  induction xs generalizing i with
  | nil => simp [locationsOfItems] at h
  | cons x rest ih =>
      rw [locationsOfItems] at h
      rcases List.mem_append.mp h with hhead | htail
      · obtain ⟨inner, -, rfl⟩ := List.mem_map.mp hhead
        exact ⟨i, inner, Nat.le_refl i, rfl⟩
      · obtain ⟨j, inner, hj, rfl⟩ := ih htail
        exact ⟨j, inner, Nat.le_of_succ_le hj, rfl⟩

/-- The locations of a value are in the order of the document. -/
theorem locations_increasing (v : Value) : v.locations.Pairwise (· < ·) := by
  induction v using induction_on_children with
  | h v ih =>
      have hitems : ∀ (xs : List Value) (i : Nat), (∀ x ∈ xs, x.locations.Pairwise (· < ·)) →
          (locationsOfItems i xs).Pairwise (· < ·) := by
        intro xs
        induction xs with
        | nil => simp [locationsOfItems]
        | cons x rest ihrest =>
            intro i hall
            obtain ⟨hx, hrest⟩ := List.forall_mem_cons.mp hall
            rw [locationsOfItems]
            refine List.pairwise_append.mpr ⟨?_, ihrest (i + 1) hrest, ?_⟩
            · refine List.pairwise_map.mpr (hx.imp fun hlt => ?_)
              exact Location.cons_lt_cons.mpr (.inr ⟨rfl, hlt⟩)
            · intro l hl l' hl'
              obtain ⟨inner, -, rfl⟩ := List.mem_map.mp hl
              obtain ⟨j, inner', hj, rfl⟩ := exists_of_mem_locationsOfItems hl'
              exact Location.cons_lt_cons.mpr (.inl hj)
      rw [locations_eq]
      refine List.pairwise_cons.mpr ⟨fun l hl => ?_, hitems v.children 0 ih⟩
      obtain ⟨j, inner, -, rfl⟩ := exists_of_mem_locationsOfItems hl
      exact Location.nil_lt_cons j inner

end Value

end Conduit
