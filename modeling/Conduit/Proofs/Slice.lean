import Conduit.Slice

/-!
# What slices select

A slice that does not walk backwards selects increasing positions. One with
bounds that do not count from the end, and no step, selects what stands between
them.
-/

namespace Conduit

namespace Slice

variable {α : Type} {s : Slice} {size : Nat}

theorem positions_eq : s.positions size =
    (List.range (count (s.bounds size).1 (s.bounds size).2 (s.step.getD 1))).map
      fun (i : Nat) => ((s.bounds size).1 + s.step.getD 1 * i).toNat := rfl

theorem positions_of_step_zero (h : s.step.getD 1 = 0) : s.positions size = [] := by
  rw [positions_eq, h]
  rfl

/-! ## Walking forwards -/

theorem clamp_nonneg (size : Nat) (bound : Int) : 0 ≤ clamp 0 size size bound := by
  unfold clamp
  split <;> omega

theorem low_nonneg (size : Nat) (h : 0 < s.step.getD 1) : 0 ≤ (s.bounds size).1 := by
  unfold bounds
  rw [if_pos h]
  cases s.start with
  | none => exact Int.le_refl 0
  | some start => exact clamp_nonneg size start

theorem positions_increasing (h : 0 ≤ s.step.getD 1) :
    (s.positions size).Pairwise (· < ·) := by
  rcases Int.lt_or_eq_of_le h with hstep | hstep
  · have hlow := low_nonneg size hstep
    rw [positions_eq]
    refine List.pairwise_map.mpr (List.pairwise_lt_range.imp ?_)
    intro i j hij
    have hi : 0 ≤ s.step.getD 1 * (i : Int) := Int.mul_nonneg h (Int.natCast_nonneg i)
    have hmul : s.step.getD 1 * (i : Int) < s.step.getD 1 * (j : Int) :=
      Int.mul_lt_mul_of_pos_left (Int.ofNat_lt.mpr hij) hstep
    omega
  · rw [positions_of_step_zero hstep.symm]
    exact .nil

/-! ## Bounds that do not count from the end -/

theorem filterMap_range' (xs : List α) (low n : Nat) :
    (List.range' low n).filterMap (fun i => xs[i]?) = (xs.drop low).take n := by
  induction n generalizing low with
  | zero => simp
  | succ n ih =>
      rw [List.range'_succ, List.filterMap_cons, ih]
      rcases Nat.lt_or_ge low xs.length with h | h
      · rw [List.getElem?_eq_getElem h, List.drop_eq_getElem_cons h, List.take_succ_cons]
      · rw [List.getElem?_eq_none h, List.drop_eq_nil_of_le h, List.drop_eq_nil_of_le (by omega)]
        simp

theorem clamp_ofNat (size n : Nat) : clamp 0 size size (Int.ofNat n) = Int.ofNat (min n size) := by
  rw [clamp, if_neg (by simp)]
  simp only [Int.ofNat_eq_natCast]
  omega

theorem bounds_of_nat (start stop : Option Nat) :
    (Slice.mk (start.map Int.ofNat) (stop.map Int.ofNat) none).bounds size =
      (Int.ofNat (min (start.getD 0) size), Int.ofNat (min (stop.getD size) size)) := by
  have hstep : 0 < (Slice.mk (start.map Int.ofNat) (stop.map Int.ofNat) none).step.getD 1 :=
    Int.one_pos
  rw [bounds, if_pos hstep]
  refine Prod.ext ?_ ?_
  · cases start with
    | none => simp
    | some n => exact clamp_ofNat size n
  · cases stop with
    | none => simp
    | some n => exact clamp_ofNat size n

/-- What stands between two bounds. -/
theorem apply_of_nat (start stop : Option Nat) (xs : List α) :
    (Slice.mk (start.map Int.ofNat) (stop.map Int.ofNat) none).apply xs =
      (xs.drop (start.getD 0)).take (stop.getD xs.length - start.getD 0) := by
  have hcount : ∀ m n : Nat, count (Int.ofNat m) (Int.ofNat n) 1 = n - m := by
    intro m n
    rw [count, if_pos (by decide)]
    simp only [Int.ofNat_eq_natCast]
    omega
  have hpositions : (Slice.mk (start.map Int.ofNat) (stop.map Int.ofNat) none).positions xs.length =
      List.range' (min (start.getD 0) xs.length)
        (min (stop.getD xs.length) xs.length - min (start.getD 0) xs.length) := by
    rw [positions_eq, bounds_of_nat, List.range'_eq_map_range]
    dsimp only [Option.getD_none]
    rw [hcount]
    refine List.map_congr_left fun i _ => ?_
    simp only [Int.ofNat_eq_natCast]
    omega
  rw [apply, hpositions, filterMap_range']
  rcases Nat.le_total (start.getD 0) xs.length with h | h
  · rw [Nat.min_eq_left h, List.take_eq_take_iff, List.length_drop]
    omega
  · rw [Nat.min_eq_right h, List.drop_length, List.drop_eq_nil_of_le h, List.take_nil,
      List.take_nil]

end Slice

end Conduit
