import Conduit.Number

/-!
# The order of numbers

Numbers are compared exactly: two mantissas over any exponent that is low
enough for both stand to each other as the numbers do. So the comparison is a
total order of the line with its two ends, and equality of numbers, which is to
have one place on it, is symmetric and transitive; only NaN, which has no place,
is not equal to itself.
-/

namespace Conduit

namespace Extended

open Double (lowerTo)

variable {m n : Int} {e f low lower : Int}

theorem lowerTo_lowerTo (h : lower ≤ low) (he : low ≤ e) :
    lowerTo m e lower = lowerTo m e low * (Nat.pow 2 (low - lower).toNat : Nat) := by
  have hexp : (e - lower).toNat = (e - low).toNat + (low - lower).toNat := by omega
  have hpow : Nat.pow 2 (e - lower).toNat =
      Nat.pow 2 (e - low).toNat * Nat.pow 2 (low - lower).toNat := by
    rw [hexp]
    exact Nat.pow_add 2 _ _
  unfold lowerTo
  rw [hpow, Int.natCast_mul, Int.mul_assoc]

theorem compare_mul {a b : Int} {c : Nat} (hc : 0 < c) :
    Ord.compare (a * c) (b * c) = Ord.compare a b := by
  have hpos : (0 : Int) < c := Int.natCast_pos.mpr hc
  rcases Int.lt_trichotomy a b with h | rfl | h
  · rw [Int.compare_eq_lt.mpr h, Int.compare_eq_lt.mpr (Int.mul_lt_mul_of_pos_right h hpos)]
  · rw [Int.compare_eq_eq.mpr rfl, Int.compare_eq_eq.mpr rfl]
  · rw [Int.compare_eq_gt.mpr h, Int.compare_eq_gt.mpr (Int.mul_lt_mul_of_pos_right h hpos)]

/-- Over any common exponent, mantissas are compared as the numbers are. -/
theorem compare_finite (he : low ≤ e) (hf : low ≤ f) :
    compare (.finite m e) (.finite n f) = Ord.compare (lowerTo m e low) (lowerTo n f low) := by
  have hlow : low ≤ min e f := Int.le_min.mpr ⟨he, hf⟩
  have hpow : 0 < Nat.pow 2 (min e f - low).toNat := Nat.two_pow_pos _
  rw [lowerTo_lowerTo hlow (Int.min_le_left e f), lowerTo_lowerTo hlow (Int.min_le_right e f),
    compare_mul hpow]
  rfl

theorem compare_swap (a b : Extended) : compare a b = (compare b a).swap := by
  cases a with
  | bottom => cases b <;> rfl
  | top => cases b <;> rfl
  | finite m e =>
      cases b with
      | bottom => rfl
      | top => rfl
      | finite n f =>
          have hlow := Int.min_le_left e f
          have hlow' := Int.min_le_right e f
          rw [compare_finite hlow hlow', compare_finite hlow' hlow]
          exact Std.OrientedOrd.eq_swap

theorem compare_trans {a b c : Extended} (hab : (compare a b).isLE) (hbc : (compare b c).isLE) :
    (compare a c).isLE := by
  cases a with
  | bottom => cases c <;> rfl
  | top =>
      cases b with
      | bottom => cases hab
      | finite n f => cases hab
      | top => exact hbc
  | finite m e =>
      cases c with
      | top => rfl
      | bottom =>
          cases b with
          | bottom => cases hab
          | finite n f => cases hbc
          | top => cases hbc
      | finite l g =>
          cases b with
          | bottom => cases hab
          | top => cases hbc
          | finite n f =>
              -- All three are compared over an exponent that is low enough for each.
              obtain ⟨low, he, hf, hg⟩ : ∃ low, low ≤ e ∧ low ≤ f ∧ low ≤ g :=
                ⟨min e (min f g), by omega⟩
              rw [compare_finite he hf] at hab
              rw [compare_finite hf hg] at hbc
              rw [compare_finite he hg]
              exact Std.TransOrd.isLE_trans hab hbc

instance : Std.TransCmp compare where
  eq_swap {a b} := compare_swap a b
  isLE_trans := compare_trans

theorem compare_self (a : Extended) : compare a a = .eq := Std.ReflCmp.compare_self

theorem compare_eq_symm {a b : Extended} (h : compare a b = .eq) : compare b a = .eq := by
  rw [compare_swap, h]
  rfl

/-- Numbers at the same place of the line are zero together. -/
theorem zero_iff_of_compare_eq (h : compare (.finite m e) (.finite n f) = .eq) :
    m = 0 ↔ n = 0 := by
  have hpow : ∀ k : Nat, (Nat.pow 2 k : Int) ≠ 0 := fun k =>
    Int.natCast_ne_zero.mpr (Nat.ne_of_gt (Nat.two_pow_pos k))
  have heq : m * _ = n * _ := Int.compare_eq_eq.mp h
  constructor
  · rintro rfl
    rw [Int.zero_mul] at heq
    exact (Int.mul_eq_zero.mp heq.symm).resolve_right (hpow _)
  · rintro rfl
    rw [Int.zero_mul] at heq
    exact (Int.mul_eq_zero.mp heq).resolve_right (hpow _)

end Extended

namespace Number

/-- Only NaN has no place on the line. -/
theorem extended?_isSome {x : Number} (h : x ≠ .double .nan) : ∃ a, x.extended? = some a := by
  cases x with
  | int n => exact ⟨_, rfl⟩
  | double d =>
      cases d with
      | nan => exact absurd rfl h
      | infinite s => exact ⟨_, rfl⟩
      | finite s m e => exact ⟨_, rfl⟩

theorem equal_self {x : Number} (h : x ≠ .double .nan) : x.equal x = true := by
  obtain ⟨a, ha⟩ := extended?_isSome h
  rw [equal, ha]
  dsimp only
  rw [Extended.compare_self]
  rfl

/-! ## Equal numbers -/

variable {x y z : Number}

theorem equal_iff : x.equal y = true ↔
    ∃ a b, x.extended? = some a ∧ y.extended? = some b ∧ a.compare b = .eq := by
  unfold equal
  split
  · next a b ha hb => simp [ha, hb]
  · next h =>
      refine iff_of_false Bool.false_ne_true ?_
      rintro ⟨a, b, ha, hb, -⟩
      exact h a b ha hb

theorem equal_symm (h : x.equal y = true) : y.equal x = true := by
  obtain ⟨a, b, ha, hb, heq⟩ := equal_iff.mp h
  exact equal_iff.mpr ⟨b, a, hb, ha, Extended.compare_eq_symm heq⟩

theorem equal_trans (hxy : x.equal y = true) (hyz : y.equal z = true) : x.equal z = true := by
  obtain ⟨a, b, ha, hb, hab⟩ := equal_iff.mp hxy
  obtain ⟨b', c, hb', hc, hbc⟩ := equal_iff.mp hyz
  cases hb.symm.trans hb'
  exact equal_iff.mpr ⟨a, c, ha, hc, Std.TransCmp.eq_trans hab hbc⟩

theorem ne_nan_of_equal (h : x.equal y = true) : x ≠ .double .nan := by
  obtain ⟨a, b, ha, -, -⟩ := equal_iff.mp h
  rintro rfl
  cases ha

/-- A number is zero if it has the place of zero on the line. -/
theorem isZero_iff : x.isZero = true ↔ ∃ e, x.extended? = some (.finite 0 e) := by
  cases x with
  | int n => simp [isZero, extended?]
  | double d =>
      cases d with
      | nan => simp [isZero, extended?, Double.isZero]
      | infinite s => cases s <;> simp [isZero, extended?, Double.isZero]
      | finite s m e => cases s <;> simp [isZero, extended?, Double.isZero, Double.signed]

theorem isZero_of_equal (h : x.equal y = true) (hx : x.isZero = true) : y.isZero = true := by
  obtain ⟨a, b, ha, hb, heq⟩ := equal_iff.mp h
  obtain ⟨e, he⟩ := isZero_iff.mp hx
  cases ha.symm.trans he
  cases b with
  | bottom => cases heq
  | top => cases heq
  | finite n f =>
      cases (Extended.zero_iff_of_compare_eq heq).mp rfl
      exact isZero_iff.mpr ⟨f, hb⟩

theorem isZero_congr (h : x.equal y = true) : x.isZero = y.isZero :=
  Bool.eq_iff_iff.mpr ⟨isZero_of_equal h, isZero_of_equal (equal_symm h)⟩

end Number

end Conduit
