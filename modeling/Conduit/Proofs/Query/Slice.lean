import Conduit.Proofs.Query.Segment
import Conduit.Proofs.Slice
import Conduit.Query.Select

/-!
# Slices of arrays

A slice with any bounds is a walk: from one position on in steps of one length,
up to a position that ends it. A bound that is negative counts from the end, and
one that is out of reach is moved to the nearest place within reach. The walk never
leaves the array before it ends, so a slice of an array leads to the elements on
its way, one after another, and cannot fail. A query that is read has no slice that
stands still.
-/

namespace Conduit

namespace Slice

variable {α : Type} {s : Slice} {size : Nat}

/-! ## The walk -/

/-- The length of a step, which is negative if the walk goes backwards. -/
def stride (s : Slice) : Int := s.step.getD 1

/-- The lowest place that a bound can have: before the first element, if the walk
goes backwards. The highest place is as many places further up as there are
elements. -/
def lowest (s : Slice) : Int := if 0 < s.stride then 0 else -1

/-- The place of a bound, from the end if it is negative, within reach. -/
def place (s : Slice) (size : Nat) (bound : Int) : Int :=
  max s.lowest (min (s.lowest + size) (if bound < 0 then bound + size else bound))

/-- The position at which the walk begins: at the near end without a bound. -/
def first (s : Slice) (size : Nat) : Int :=
  (s.start.map (s.place size)).getD (if 0 < s.stride then s.lowest else s.lowest + size)

/-- The position that ends the walk: at the far end without a bound. -/
def last (s : Slice) (size : Nat) : Int :=
  (s.stop.map (s.place size)).getD (if 0 < s.stride then s.lowest + size else s.lowest)

/-- The position that the walk comes to with the given number of steps. -/
def reached (s : Slice) (size steps : Nat) : Int := s.first size + s.stride * steps

/-- The walk has not ended with that many steps. -/
def Goes (s : Slice) (size steps : Nat) : Prop :=
  if 0 < s.stride then s.reached size steps < s.last size
  else s.last size < s.reached size steps

instance (s : Slice) (size steps : Nat) : Decidable (s.Goes size steps) :=
  inferInstanceAs (Decidable (if 0 < s.stride then s.reached size steps < s.last size
    else s.last size < s.reached size steps))

theorem lowest_le_place (s : Slice) (size : Nat) (bound : Int) :
    s.lowest ≤ s.place size bound ∧ s.place size bound ≤ s.lowest + size := by
  unfold place
  omega

theorem lowest_le_first (s : Slice) (size : Nat) :
    s.lowest ≤ s.first size ∧ s.first size ≤ s.lowest + size := by
  unfold first
  cases s.start with
  | none => rw [Option.map_none, Option.getD_none]; split <;> omega
  | some bound => exact lowest_le_place s size bound

theorem lowest_le_last (s : Slice) (size : Nat) :
    s.lowest ≤ s.last size ∧ s.last size ≤ s.lowest + size := by
  unfold last
  cases s.stop with
  | none => rw [Option.map_none, Option.getD_none]; split <;> omega
  | some bound => exact lowest_le_place s size bound

theorem clamp_eq_place (s : Slice) (size : Nat) (bound : Int) :
    clamp s.lowest (s.lowest + size) size bound = s.place size bound := by
  unfold clamp place lowest
  split <;> split <;> omega

theorem bounds_eq (s : Slice) (size : Nat) : s.bounds size = (s.first size, s.last size) := by
  have hplace : clamp s.lowest (s.lowest + size) size = s.place size :=
    funext (clamp_eq_place s size)
  unfold bounds first last
  rw [← hplace, lowest]
  by_cases hstep : 0 < s.stride
  · rw [if_pos hstep, if_pos hstep, if_pos hstep, if_pos (show 0 < s.step.getD 1 from hstep),
      Int.zero_add]
  · rw [if_neg hstep, if_neg hstep, if_neg hstep, if_neg (show ¬0 < s.step.getD 1 from hstep)]
    have hhigh : (-1 : Int) + size = size - 1 := by omega
    rw [hhigh]

/-! ## How far the walk goes -/

theorem lt_count_up {low high step : Int} (hstep : 0 < step) (i : Nat) :
    i < count low high step ↔ low + step * i < high := by
  have hdiv : (i : Int) + 1 ≤ (high - low + step - 1) / step ↔
      ((i : Int) + 1) * step ≤ high - low + step - 1 := Int.le_ediv_iff_mul_le hstep
  have hmul : ((i : Int) + 1) * step = step * i + step := by
    rw [Int.add_mul, Int.one_mul, Int.mul_comm]
  rw [count, if_pos hstep]
  omega

theorem lt_count_down {low high step : Int} (hstep : step < 0) (i : Nat) :
    i < count low high step ↔ high < low + step * i := by
  have hdiv : (i : Int) + 1 ≤ (low - high - step - 1) / (-step) ↔
      ((i : Int) + 1) * (-step) ≤ low - high - step - 1 := Int.le_ediv_iff_mul_le (by omega)
  have hmul : ((i : Int) + 1) * (-step) = -(step * i) - step := by
    rw [Int.add_mul, Int.one_mul, Int.mul_neg, Int.mul_comm]
    omega
  rw [count, if_neg (by omega), if_pos hstep]
  omega

theorem lt_count_iff (hstep : s.stride ≠ 0) (i : Nat) :
    i < count (s.first size) (s.last size) s.stride ↔
      s.Goes size i := by
  unfold Goes
  split
  · next hpos => exact lt_count_up hpos i
  · next hpos => exact lt_count_down (by omega) i

/-- Before it ends the walk is inside the list. -/
theorem Goes.inside {i : Nat} (h : s.Goes size i) :
    0 ≤ s.reached size i ∧ s.reached size i < size := by
  have hfirst := lowest_le_first s size
  have hlast := lowest_le_last s size
  unfold Goes at h
  unfold reached at h ⊢
  unfold lowest at hfirst hlast
  split at h
  · next hpos =>
      have hmul : 0 ≤ s.stride * (i : Int) := Int.mul_nonneg (by omega) (by omega)
      rw [if_pos hpos] at hfirst hlast
      omega
  · next hpos =>
      have hmul : s.stride * (i : Int) ≤ 0 :=
        Int.mul_nonpos_of_nonpos_of_nonneg (by omega) (by omega)
      rw [if_neg hpos] at hfirst hlast
      omega

/-! ## What is selected -/

/-- The elements on the way, as long as it goes. -/
theorem apply_eq_map (s : Slice) (xs : List α) : s.apply xs =
    (List.range (count (s.first xs.length) (s.last xs.length) s.stride)).filterMap fun (i : Nat) =>
      xs[(s.reached xs.length i).toNat]? := by
  rw [apply, positions_eq, bounds_eq, List.filterMap_map]
  rfl

theorem getElem?_filterMap_range {n : Nat} {f : Nat → Option α} (h : ∀ i < n, (f i).isSome)
    (i : Nat) : ((List.range n).filterMap f)[i]? = if i < n then f i else none := by
  induction n with
  | zero => rfl
  | succ n ih =>
      have hbelow : ∀ i < n, (f i).isSome := fun i hi => h i (Nat.lt_succ_of_lt hi)
      have hlength : ((List.range n).filterMap f).length = n := by
        rw [List.filterMap_length_eq_length.mpr fun i hi => hbelow i (List.mem_range.mp hi),
          List.length_range]
      obtain ⟨x, hx⟩ := Option.isSome_iff_exists.mp (h n (Nat.lt_succ_self n))
      rw [List.range_succ, List.filterMap_append, List.filterMap_cons_some hx, List.filterMap_nil,
        List.getElem?_append, hlength, ih hbelow]
      rcases Nat.lt_trichotomy i n with hi | rfl | hi
      · rw [if_pos hi, if_pos hi, if_pos (Nat.lt_succ_of_lt hi)]
      · simp [hx]
      · rw [if_neg (by omega), if_neg (by omega)]
        exact List.getElem?_eq_none (by simpa using by omega)

/-- Each element on the way is the next one that is selected, and no others are. -/
theorem getElem?_apply (hstep : s.step ≠ some 0) (xs : List α) (i : Nat) :
    (s.apply xs)[i]? =
      if s.Goes xs.length i then xs[(s.reached xs.length i).toNat]? else none := by
  have hstride : s.stride ≠ 0 := by
    unfold stride
    intro hzero
    cases hs : s.step with
    | none =>
        rw [hs] at hzero
        cases hzero
    | some step =>
        rw [hs] at hzero
        exact hstep (by rw [hs, show step = 0 from hzero])
  have hinside : ∀ i < count (s.first xs.length) (s.last xs.length) s.stride,
      (xs[(s.reached xs.length i).toNat]?).isSome := by
    intro i hi
    have hgoes := ((lt_count_iff hstride i).mp hi).inside
    rw [List.getElem?_eq_getElem (by omega)]
    rfl
  rw [apply_eq_map, getElem?_filterMap_range hinside]
  by_cases hgoes : s.Goes xs.length i
  · rw [if_pos hgoes, if_pos ((lt_count_iff hstride i).mpr hgoes)]
  · rw [if_neg hgoes, if_neg (mt (lt_count_iff hstride i).mp hgoes)]

/-! ## Pieces and turns -/

/-- A walk without a step goes on by one. -/
theorem getElem?_apply_of_step_none (hs : s.step = none) (xs : List α) (i : Nat) :
    (s.apply xs)[i]? = if s.first xs.length + i < s.last xs.length then
      xs[(s.first xs.length + i).toNat]? else none := by
  have hstride : s.stride = 1 := by rw [stride, hs]; rfl
  have hreached : s.reached xs.length i = s.first xs.length + i := by
    rw [reached, hstride, Int.one_mul]
  have hgoes : s.Goes xs.length i ↔ s.first xs.length + i < s.last xs.length := by
    unfold Goes
    rw [if_pos (by omega), hreached]
  rw [getElem?_apply (by rw [hs]; nofun), hreached]
  by_cases hi : s.first xs.length + i < s.last xs.length
  · rw [if_pos (hgoes.mpr hi), if_pos hi]
  · rw [if_neg (mt hgoes.mp hi), if_neg hi]

/-- The place of a bound, counted from the first element. -/
def cut (size : Nat) (bound : Int) : Nat := ((Slice.mk none none none).place size bound).toNat

theorem place_eq_cut (hs : s.step = none) (size : Nat) (bound : Int) :
    s.place size bound = cut size bound := by
  have hlowest : s.lowest = 0 := by rw [lowest, stride, hs]; rfl
  unfold cut place
  rw [hlowest, show (Slice.mk none none none).lowest = 0 from rfl]
  omega

/-- The elements before the place of a bound. -/
theorem apply_before (bound : Int) (xs : List α) :
    (Slice.mk none (some bound) none).apply xs = xs.take (cut xs.length bound) := by
  refine List.ext_getElem? fun i => ?_
  have hlast : (Slice.mk none (some bound) none).last xs.length = cut xs.length bound :=
    place_eq_cut rfl xs.length bound
  have hfirst : (Slice.mk none (some bound) none).first xs.length = 0 := rfl
  rw [getElem?_apply_of_step_none rfl, List.getElem?_take, hlast, hfirst, Int.zero_add,
    Int.toNat_natCast]
  split <;> split <;> first | rfl | omega

/-- The elements from the place of a bound on. -/
theorem apply_after (bound : Int) (xs : List α) :
    (Slice.mk (some bound) none none).apply xs = xs.drop (cut xs.length bound) := by
  refine List.ext_getElem? fun i => ?_
  have hfirst : (Slice.mk (some bound) none none).first xs.length = cut xs.length bound :=
    place_eq_cut rfl xs.length bound
  have hlast : (Slice.mk (some bound) none none).last xs.length = xs.length := Int.zero_add _
  rw [getElem?_apply_of_step_none rfl, List.getElem?_drop, hfirst, hlast, ← Int.natCast_add,
    Int.toNat_natCast]
  split
  · rfl
  · rw [List.getElem?_eq_none (by omega)]

theorem apply_backwards (xs : List α) :
    (Slice.mk none none (some (-1))).apply xs = xs.reverse := by
  refine List.ext_getElem? fun i => ?_
  have hreached : (Slice.mk none none (some (-1))).reached xs.length i =
      -1 + xs.length + -1 * i := rfl
  have hgoes : (Slice.mk none none (some (-1))).Goes xs.length i ↔
      -1 < -1 + (xs.length : Int) + -1 * i := Iff.rfl
  rw [getElem?_apply (by simp), hreached]
  by_cases hi : i < xs.length
  · rw [if_pos (hgoes.mpr (by omega)), List.getElem?_reverse hi]
    congr 1
    omega
  · rw [if_neg (mt hgoes.mp (by omega)), List.getElem?_eq_none (by simpa using hi)]

end Slice

/-! ## Slices in queries -/

namespace Segment

variable {P : Type}

mutual

/-- The slices in a segment. -/
def slices : Segment P → List Slice
  | .step _ => []
  | .wildcard => []
  | .slice s => [s]
  | .filter _ => []
  | .selection ss => slicesAll ss
  | .descent inner => slices inner

def slicesAll : List (Segment P) → List Slice
  | [] => []
  | s :: rest => slices s ++ slicesAll rest

end

/-- No slice in the segment stands still. -/
def Moves (s : Segment P) : Prop := ∀ slice ∈ s.slices, slice.step ≠ some 0

theorem moves_of_slices_eq_nil {s : Segment P} (h : s.slices = []) : s.Moves := by
  rw [Moves, h]
  exact List.forall_mem_nil _

theorem IsListable.moves {s : Segment P} (h : s.IsListable) : s.Moves := by
  cases s with
  | step s => exact moves_of_slices_eq_nil rfl
  | slice slice => exact List.forall_mem_singleton.mpr h
  | _ => exact h.elim

theorem forall_mem_slicesAll {ss : List (Segment P)} (h : ∀ s ∈ ss, s.Moves) :
    ∀ slice ∈ slicesAll ss, slice.step ≠ some 0 := by
  induction ss with
  | nil => exact List.forall_mem_nil _
  | cons s rest ih =>
      obtain ⟨hs, hrest⟩ := List.forall_mem_cons.mp h
      exact List.forall_mem_append.mpr ⟨hs, ih hrest⟩

end Segment

namespace Query

section Reading

variable (source : String) (toks : List Token)

theorem member_moves {P : Type} :
    Yields (fun p => p.value.Moves) (member (P := P) source toks) := by
  unfold member
  split
  · exact .ok (Segment.moves_of_slices_eq_nil rfl)
  · exact .ok (Segment.moves_of_slices_eq_nil rfl)
  · exact .ok (Segment.moves_of_slices_eq_nil rfl)
  · exact .fail

theorem selectors_moves {P : Type} :
    Yields (fun p => p.value.Moves) (selectors (P := P) source toks) := by
  unfold selectors
  refine .bind (selector_lexemes source toks) fun first hfirst => ?_
  refine .bind (moreSelectors_lexemes source first.rest) fun more hmore => .ok ?_
  obtain ⟨-, ⟨hlistable, -⟩, -⟩ := hfirst
  obtain ⟨parts, hparts, hvalues, -⟩ := hmore
  have hmoves : ∀ s ∈ more.1, s.Moves := by
    rw [← hvalues]
    exact List.forall_mem_map.mpr fun part hpart => (hparts part hpart).1.moves
  dsimp only
  split
  · exact hlistable.moves
  · exact Segment.forall_mem_slicesAll (List.forall_mem_cons.mpr ⟨hlistable.moves, hmoves⟩)

theorem bracket_moves : Yields (fun p => p.value.Moves) (bracket source toks) := by
  have hcontents : Yields (fun p => p.value.Moves) (contents source toks) := by
    unfold contents
    split
    · exact .ok (Segment.moves_of_slices_eq_nil rfl)
    · refine .bind .any fun opening _ => .bind .any fun condition _ => .bind .any fun close _ => ?_
      exact .ok (Segment.moves_of_slices_eq_nil rfl)
    · exact selectors_moves source _
  unfold bracket
  exact .bind hcontents fun contents h => .bind .any fun close _ => .ok h

theorem segment_moves : Yields (fun p => p.value.Moves) (segment source toks) := by
  unfold segment
  split
  · exact .bind (member_moves source _) fun p h => .ok h
  · exact .bind (bracket_moves source _) fun p h => .ok h
  · exact .bind (member_moves source _) fun p h => .ok h
  · exact .bind (bracket_moves source _) fun p h => .ok h
  · exact .fail

theorem segments_move : Yields (fun ss => ∀ s ∈ ss, s.Moves) (segments source toks) := by
  fun_induction segments source toks with
  | case1 => exact .ok (List.forall_mem_nil _)
  | case2 t rest ih =>
      exact .bind (segment_moves source (t :: rest)) fun first h => .bind (ih first) fun more hm =>
        .ok (List.forall_mem_cons.mpr ⟨h, hm⟩)

end Reading

theorem parse_moves {text : String} {ss : List (Segment Filter)} (h : parse text = .ok ss) :
    ∀ s ∈ ss, s.Moves := by
  have hstart : ∀ toks, Yields (fun ss => ∀ s ∈ ss, s.Moves) (start text toks) := by
    intro toks
    unfold start
    split
    · exact segments_move text _
    · refine .bind (segments_move text _) fun more hm => .ok ?_
      exact List.forall_mem_cons.mpr ⟨Segment.moves_of_slices_eq_nil rfl, hm⟩
    · exact segments_move text _
    · exact .fail
  unfold parse at h
  split at h
  · cases h
  · exact Yields.bind .any (fun toks _ => hstart toks) ss h

/-- A slice that does not stand still never fails on an array. It leads to the
elements on its way, in order: to one for each position that the walk comes to before
it ends, and to no others. Up to a bound and from the same bound on it is the whole
array, and one step back at a time it is the array backwards. No slice of a query that
is read stands still. -/
theorem run_slice :
    (∀ (s : Slice) (xs : List Value), s.step ≠ some 0 →
      (∀ {m : Type → Type} [Monad m] [LawfulMonad m] {P : Type} (judge : Judge m P),
        select judge (.slice s) (.arr xs) = pure (s.apply xs) ∧
          run judge [.slice s] (.arr xs) = pure (s.apply xs)) ∧
      ∀ i : Nat,
        (s.Goes xs.length i → ∃ x, (s.apply xs)[i]? = some x ∧
          0 ≤ s.reached xs.length i ∧ xs[(s.reached xs.length i).toNat]? = some x) ∧
        (¬s.Goes xs.length i → (s.apply xs)[i]? = none)) ∧
    (∀ (xs : List Value) (bound : Int),
      (Slice.mk none (some bound) none).apply xs ++ (Slice.mk (some bound) none none).apply xs =
        xs) ∧
    (∀ xs : List Value, (Slice.mk none none (some (-1))).apply xs = xs.reverse) ∧
    ∀ (text : String) (ss : List (Segment Filter)), parse text = .ok ss →
      ∀ s ∈ Segment.slicesAll ss, s.step ≠ some 0 := by
  refine ⟨fun s xs hstep => ⟨?_, fun i => ⟨fun hgoes => ?_, fun hgoes => ?_⟩⟩, ?_, ?_, ?_⟩
  · intro m _ _ P judge
    refine ⟨rfl, ?_⟩
    rw [run, runFrom, collect, collect, select, pure_bind, pure_bind, pure_bind, runFrom,
      List.append_nil]
  · obtain ⟨hlow, hhigh⟩ := hgoes.inside
    have helement := List.getElem?_eq_getElem
      (show (s.reached xs.length i).toNat < xs.length by omega)
    refine ⟨_, ?_, hlow, helement⟩
    rw [Slice.getElem?_apply hstep, if_pos hgoes, helement]
  · rw [Slice.getElem?_apply hstep, if_neg hgoes]
  · intro xs bound
    rw [Slice.apply_before, Slice.apply_after, List.take_append_drop]
  · exact Slice.apply_backwards
  · exact fun text ss h => Segment.forall_mem_slicesAll (parse_moves h)

/-- Every other element backwards, from far behind the end. -/
def everyOther : Slice := ⟨some 10, none, some (-2)⟩

theorem run_slice_everyOther :
    everyOther.step ≠ some 0 ∧
      (∀ judge : Judge Option Empty,
        run judge [.slice everyOther] (.arr [.int 0, .int 1, .int 2, .int 3, .int 4]) =
          some [.int 4, .int 2, .int 0]) ∧
      everyOther.Goes 5 2 ∧ everyOther.reached 5 2 = 0 ∧ ¬everyOther.Goes 5 3 := by
  have hstep : everyOther.step ≠ some 0 := by decide
  refine ⟨hstep, fun judge => ?_, by decide, by decide, by decide⟩
  exact ((run_slice.1 everyOther _ hstep).1 judge).2

end Query

end Conduit
