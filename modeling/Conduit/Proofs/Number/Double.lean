import Conduit.Number.Double
import Mathlib.Algebra.Group.Nat.Defs

/-!
# When a fraction is too large for a double

Rounding takes a fraction to infinity exactly if it is at least halfway from
the largest double to the next power of two. The mantissa of a fraction is
found by a guess of its exponent from two bit lengths; the guess is at most
one too small, so that in the end the mantissa lies in the one binade where
it has full length.
-/

namespace Conduit

namespace Double

/-- The least integer that is too large for a double: halfway between the
largest one, `(2^53 - 1) · 2^971`, and `2^1024`. -/
def overflowBound : Nat := (2 ^ 54 - 1) * 2 ^ 970

variable {num den c : Nat} {e : Int}

/-! ## Scaling -/

/-- `num / den < c · 2^e`. -/
def Below (num den c : Nat) (e : Int) : Prop := (scale num den e).1 < c * (scale num den e).2

theorem below_nonneg (k : Nat) : Below num den c k ↔ num < c * (den * 2 ^ k) := by
  simp [Below, scale]

theorem below_neg (k : Nat) : Below num den c (-k) ↔ num * 2 ^ k < c * den := by
  cases k with
  | zero => simp [Below, scale]
  | succ k =>
      have hk : ¬(0 : Int) ≤ -((k + 1 : Nat) : Int) := by omega
      simp only [Below, scale, if_neg hk]
      rw [show (-(-((k + 1 : Nat) : Int))).toNat = k + 1 by omega]
      rfl

theorem below_succ : Below num den c (e + 1) ↔ Below num den (2 * c) e := by
  by_cases he : 0 ≤ e
  · obtain ⟨k, rfl⟩ := Int.eq_ofNat_of_zero_le he
    have hk : (k : Int) + 1 = (k + 1 : Nat) := by omega
    rw [hk, below_nonneg, below_nonneg, Nat.pow_succ]
    rw [show c * (den * (2 ^ k * 2)) = 2 * c * (den * 2 ^ k) by
      rw [← Nat.mul_assoc den, Nat.mul_comm _ 2, ← Nat.mul_assoc c 2, Nat.mul_comm c 2]]
  · obtain ⟨k, hk⟩ : ∃ k : Nat, e = -((k + 1 : Nat) : Int) := ⟨(-e).toNat - 1, by omega⟩
    have hk' : e + 1 = -(k : Int) := by omega
    rw [hk', hk, below_neg, below_neg, Nat.pow_succ]
    rw [← Nat.mul_assoc, Nat.mul_assoc 2 c, Nat.mul_comm (num * 2 ^ k) 2]
    exact ⟨fun h => by omega, fun h => by omega⟩

theorem scale_den_pos (hden : 0 < den) : 0 < (scale num den e).2 := by
  unfold scale
  split
  · exact Nat.mul_pos hden (Nat.two_pow_pos _)
  · exact hden

/-! ## The exponent of a fraction -/

theorem below_guess (hden : 0 < den) :
    Below num den (2 ^ 54) ((num.log2 : Int) - den.log2 - 53) := by
  have hnum : num < 2 ^ (num.log2 + 1) := Nat.lt_log2_self
  have hlow : 2 ^ den.log2 ≤ den := Nat.log2_self_le (Nat.ne_of_gt hden)
  by_cases h : den.log2 + 53 ≤ num.log2
  · rw [show (num.log2 : Int) - den.log2 - 53 = (num.log2 - den.log2 - 53 : Nat) by omega,
      below_nonneg]
    calc num < 2 ^ (num.log2 + 1) := hnum
      _ = 2 ^ 54 * (2 ^ den.log2 * 2 ^ (num.log2 - den.log2 - 53)) := by
        rw [← Nat.pow_add, ← Nat.pow_add]
        congr 1
        omega
      _ ≤ 2 ^ 54 * (den * 2 ^ (num.log2 - den.log2 - 53)) :=
        Nat.mul_le_mul_left _ (Nat.mul_le_mul_right _ hlow)
  · rw [show (num.log2 : Int) - den.log2 - 53 = -((den.log2 + 53 - num.log2 : Nat) : Int) by omega,
      below_neg]
    calc num * 2 ^ (den.log2 + 53 - num.log2)
        < 2 ^ (num.log2 + 1) * 2 ^ (den.log2 + 53 - num.log2) :=
          Nat.mul_lt_mul_of_pos_right hnum (Nat.two_pow_pos _)
      _ = 2 ^ 54 * 2 ^ den.log2 := by
        rw [← Nat.pow_add, ← Nat.pow_add]
        congr 1
        omega
      _ ≤ 2 ^ 54 * den := Nat.mul_le_mul_left _ hlow

theorem not_below_guess (hnum : 0 < num) :
    ¬Below num den (2 ^ 52) ((num.log2 : Int) - den.log2 - 53) := by
  have hlow : 2 ^ num.log2 ≤ num := Nat.log2_self_le (Nat.ne_of_gt hnum)
  have hden : den ≤ 2 ^ (den.log2 + 1) := Nat.le_of_lt Nat.lt_log2_self
  by_cases h : den.log2 + 53 ≤ num.log2
  · rw [show (num.log2 : Int) - den.log2 - 53 = (num.log2 - den.log2 - 53 : Nat) by omega,
      below_nonneg, Nat.not_lt]
    calc 2 ^ 52 * (den * 2 ^ (num.log2 - den.log2 - 53))
        ≤ 2 ^ 52 * (2 ^ (den.log2 + 1) * 2 ^ (num.log2 - den.log2 - 53)) :=
          Nat.mul_le_mul_left _ (Nat.mul_le_mul_right _ hden)
      _ = 2 ^ num.log2 := by
        rw [← Nat.pow_add, ← Nat.pow_add]
        congr 1
        omega
      _ ≤ num := hlow
  · rw [show (num.log2 : Int) - den.log2 - 53 = -((den.log2 + 53 - num.log2 : Nat) : Int) by omega,
      below_neg, Nat.not_lt]
    calc 2 ^ 52 * den ≤ 2 ^ 52 * 2 ^ (den.log2 + 1) := Nat.mul_le_mul_left _ hden
      _ = 2 ^ num.log2 * 2 ^ (den.log2 + 53 - num.log2) := by
        rw [← Nat.pow_add, ← Nat.pow_add]
        congr 1
        omega
      _ ≤ num * 2 ^ (den.log2 + 53 - num.log2) := Nat.mul_le_mul_right _ hlow

/-- Unless the fraction is too small for it, its exponent gives it a mantissa
of full length. -/
theorem exists_exponentFor_eq (hnum : 0 < num) (hden : 0 < den) :
    ∃ e, exponentFor num den = max e leastExponent ∧ Below num den (2 ^ 53) e ∧
      ¬Below num den (2 ^ 52) e := by
  have hdiv : ∀ e, (scale num den e).1 / (scale num den e).2 < mantissaBound ↔
      Below num den (2 ^ 53) e := fun e => by
    rw [Nat.div_lt_iff_lt_mul (scale_den_pos hden)]
    rfl
  unfold exponentFor
  dsimp only
  by_cases h : Below num den (2 ^ 53) ((num.log2 : Int) - den.log2 - 53)
  · refine ⟨_, ?_, h, not_below_guess hnum⟩
    rw [if_pos ((hdiv _).mpr h)]
  · refine ⟨(num.log2 : Int) - den.log2 - 53 + 1, ?_, ?_, ?_⟩
    · rw [if_neg (mt (hdiv _).mp h)]
    · exact below_succ.mpr (below_guess hden)
    · exact mt below_succ.mp h

/-! ## Rounding up to the next power of two -/

/-- Below an even bound, a fraction is rounded up to it exactly from the half
before it on: the tie goes to the bound. -/
theorem nearestEven_lt_iff (hc : c % 2 = 0) (h : num < c * den) :
    nearestEven num den < c ↔ 2 * num < (2 * c - 1) * den := by
  have hden : 0 < den := Nat.pos_of_ne_zero fun h0 => by simp [h0] at h
  have hq : num / den < c := (Nat.div_lt_iff_lt_mul hden).mpr h
  have hpos : 0 < c := Nat.lt_of_le_of_lt (Nat.zero_le _) hq
  have hdecomp := Nat.div_add_mod num den
  have hr : num % den < den := Nat.mod_lt _ hden
  have hbound : (2 * c - 1) * den = 2 * (den * (c - 1)) + den := by
    obtain ⟨k, rfl⟩ : ∃ k, c = k + 1 := ⟨c - 1, by omega⟩
    rw [show 2 * (k + 1) - 1 = 2 * k + 1 by omega, Nat.add_sub_cancel, Nat.add_mul, Nat.one_mul,
      Nat.mul_assoc, Nat.mul_comm k]
  unfold nearestEven
  dsimp only
  generalize num / den = q at *
  generalize num % den = r at *
  by_cases hlast : q = c - 1
  · subst hlast
    rw [hbound]
    split
    · omega
    · split
      · omega
      · rw [if_neg (by omega)]
        omega
  · have hmul : den * (q + 1) ≤ den * (c - 1) := Nat.mul_le_mul_left _ (by omega)
    rw [Nat.mul_add, Nat.mul_one] at hmul
    have hlt : 2 * num < (2 * c - 1) * den := by omega
    refine ⟨fun _ => hlt, fun _ => ?_⟩
    split
    · exact hq
    · split
      · omega
      · split <;> omega

/-- Rounding to infinity happens past the greatest exponent, or at it by the
rounding up of the mantissa. -/
theorem assemble_eq_infinite_iff {negative : Bool} {mantissa : Nat} :
    (∃ s, assemble negative mantissa e = .infinite s) ↔
      971 < e ∨ e = 971 ∧ ¬mantissa < 2 ^ 53 := by
  have hinfinite : ∀ {m : Nat} {f : Int},
      (∃ s, (if greatestExponent < f then .infinite negative else .finite negative m f) =
        Double.infinite s) ↔ 971 < f := by
    intro m f
    unfold greatestExponent
    split
    · next h => exact ⟨fun _ => h, fun _ => ⟨_, rfl⟩⟩
    · next h =>
        refine ⟨?_, fun h' => absurd h' h⟩
        rintro ⟨_, hs⟩
        cases hs
  unfold assemble mantissaBound
  by_cases hm : mantissa < Nat.pow 2 53
  · rw [if_pos hm]
    refine hinfinite.trans ⟨.inl, ?_⟩
    rintro (h | ⟨-, h⟩)
    · exact h
    · exact absurd hm h
  · rw [if_neg hm]
    refine hinfinite.trans ⟨fun h => ?_, ?_⟩
    · by_cases he : 971 < e
      · exact .inl he
      · exact .inr ⟨by omega, hm⟩
    · rintro (h | ⟨h, -⟩) <;> omega

/-! The bound is compared with a mantissa at any exponent `top`, which is
`970` where it counts. -/

section

variable {k top : Nat}

theorem bound_pos (top : Nat) : 0 < (2 ^ 54 - 1) * 2 ^ top :=
  Nat.mul_pos (by omega) (Nat.two_pow_pos top)

/-- What is below `2^53 · 2^top` is below the bound. -/
theorem lt_bound_of_le (hk : k ≤ top) (h : num < 2 ^ 53 * (den * 2 ^ k)) :
    num < (2 ^ 54 - 1) * 2 ^ top * den :=
  calc num < 2 ^ 53 * (den * 2 ^ k) := h
    _ ≤ 2 ^ 53 * (den * 2 ^ top) :=
      Nat.mul_le_mul_left _ (Nat.mul_le_mul_left _ (Nat.pow_le_pow_right (by omega) hk))
    _ ≤ (2 ^ 54 - 1) * (den * 2 ^ top) := Nat.mul_le_mul_right _ (by omega)
    _ = (2 ^ 54 - 1) * 2 ^ top * den := by rw [Nat.mul_comm den, Nat.mul_assoc]

/-- What is at least `2^52 · 2^(top + 2)` is past the bound. -/
theorem bound_le_of_le (hk : top + 2 ≤ k) (h : 2 ^ 52 * (den * 2 ^ k) ≤ num) :
    (2 ^ 54 - 1) * 2 ^ top * den ≤ num :=
  calc (2 ^ 54 - 1) * 2 ^ top * den ≤ 2 ^ 54 * 2 ^ top * den :=
        Nat.mul_le_mul_right _ (Nat.mul_le_mul_right _ (Nat.sub_le _ _))
    _ = 2 ^ 52 * (den * 2 ^ (top + 2)) := by
      rw [Nat.mul_comm den, ← Nat.mul_assoc, ← Nat.pow_add, ← Nat.pow_add]
      rw [show 54 + top = 52 + (top + 2) by omega]
    _ ≤ 2 ^ 52 * (den * 2 ^ k) :=
      Nat.mul_le_mul_left _ (Nat.mul_le_mul_left _ (Nat.pow_le_pow_right (by omega) hk))
    _ ≤ num := h

/-- In between the bound is where the mantissa is rounded up. -/
theorem lt_bound_iff (hk : k = top + 1) :
    2 * num < c * (den * 2 ^ k) ↔ num < c * 2 ^ top * den := by
  have htwice : c * (den * 2 ^ k) = 2 * (c * 2 ^ top * den) := by
    rw [hk, Nat.pow_succ, ← Nat.mul_assoc den, Nat.mul_comm _ 2, Nat.mul_left_comm,
      Nat.mul_comm den, Nat.mul_assoc c]
  rw [htwice]
  omega

end

theorem overflowBound_eq : overflowBound = (2 ^ 54 - 1) * 2 ^ 970 := by
  rw [overflowBound]

/-- A fraction is rounded to infinity exactly from the bound on. -/
theorem roundRatio_eq_infinite_iff (negative : Bool) (hden : 0 < den) :
    (∃ s, roundRatio negative num den = .infinite s) ↔ overflowBound * den ≤ num := by
  unfold roundRatio
  rw [overflowBound_eq]
  split
  · next hnum =>
      subst hnum
      have hpos := Nat.mul_pos (bound_pos 970) hden
      refine ⟨?_, fun h => absurd hpos (Nat.not_lt.mpr h)⟩
      rintro ⟨_, hs⟩
      cases hs
  · next hnum =>
      obtain ⟨e, he, hbelow, hfull⟩ := exists_exponentFor_eq (Nat.pos_of_ne_zero hnum) hden
      dsimp only
      rw [assemble_eq_infinite_iff, he]
      by_cases hneg : e < 0
      · obtain ⟨k, rfl⟩ : ∃ k : Nat, e = -(k : Int) := ⟨(-e).toNat, by omega⟩
        rw [below_neg] at hbelow
        have hlt : num < 2 ^ 53 * (den * 2 ^ 0) := by
          rw [Nat.pow_zero, Nat.mul_one]
          exact Nat.lt_of_le_of_lt (Nat.le_mul_of_pos_right _ (Nat.two_pow_pos k)) hbelow
        have hbound := lt_bound_of_le (Nat.zero_le 970) hlt
        unfold leastExponent
        omega
      · obtain ⟨k, rfl⟩ := Int.eq_ofNat_of_zero_le (Int.not_lt.mp hneg)
        have hmax : max (k : Int) leastExponent = k := by
          unfold leastExponent
          omega
        rw [hmax]
        have hscale : scale num den k = (num, den * 2 ^ k) := rfl
        rw [hscale]
        rw [below_nonneg] at hbelow hfull
        rw [nearestEven_lt_iff (by omega) hbelow]
        by_cases hk : k ≤ 970
        · have hbound := lt_bound_of_le hk hbelow
          omega
        · by_cases hlast : k = 971
          · rw [show 2 * 2 ^ 53 - 1 = 2 ^ 54 - 1 by omega, lt_bound_iff hlast]
            omega
          · have hpast : 970 + 2 ≤ k := by omega
            have hbound := bound_le_of_le hpast (Nat.not_lt.mp hfull)
            omega

theorem isNaN_assemble (negative : Bool) (mantissa : Nat) (exponent : Int) :
    (assemble negative mantissa exponent).isNaN = false := by
  unfold assemble
  split
  split <;> rfl

theorem isNaN_roundRatio (negative : Bool) (num den : Nat) :
    (roundRatio negative num den).isNaN = false := by
  unfold roundRatio
  split
  · rfl
  · exact isNaN_assemble _ _ _

end Double

end Conduit
