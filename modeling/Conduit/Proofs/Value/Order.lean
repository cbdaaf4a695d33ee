import Conduit.Proofs.Number.Limits
import Conduit.Proofs.Number.Order
import Conduit.Proofs.Text.Bytes

/-!
# Which values have an order

Two values have an order if they are measured on one scale: numbers that a
double can stand for, or strings. A boolean, NaN or an integer beyond all
doubles is on no scale, and has no order even with itself. So among values that
have an order with one of them, all have one with each other, and there the
comparison is a total preorder. It puts two values at the same place if they
are equal, and strings in the order of their bytes.
-/

namespace Conduit

namespace Value

/-- What values of an order are measured on. -/
inductive Scale where
  | numbers | texts
  deriving DecidableEq, Repr

/-- The scale of a value, if it is on one. -/
def scale? : Value → Option Scale
  | .number x =>
    match x.isNaN with
    | .ok false => some .numbers
    | _ => none
  | .str _ => some .texts
  | _ => none

/-- Two values have an order. -/
def HasOrder (v w : Value) : Prop := ∃ o, v.compare w = .ok o

/-! ## Strings -/

theorem isLE_compareStrings {s t : String} : (compareStrings s t).isLE = true ↔ ¬t < s := by
  unfold compareStrings
  split
  · next h => simp [String.lt_asymm h]
  · split
    · next h => simp [h]
    · next h => simp [h]

theorem compareStrings_swap (s t : String) : compareStrings s t = (compareStrings t s).swap := by
  unfold compareStrings
  by_cases hst : s < t
  · rw [if_pos hst, if_neg (String.lt_asymm hst), if_pos hst]
    rfl
  · rw [if_neg hst]
    by_cases hts : t < s
    · rw [if_pos hts, if_pos hts]
      rfl
    · rw [if_neg hts, if_neg hts, if_neg hst]
      rfl

theorem compareStrings_trans {s t u : String} (hst : (compareStrings s t).isLE)
    (htu : (compareStrings t u).isLE) : (compareStrings s u).isLE := by
  rw [isLE_compareStrings] at hst htu ⊢
  exact fun hus => (String.le_trans (String.not_lt.mp hst) (String.not_lt.mp htu)) hus

/-! ## Numbers -/

variable {x y : Number} {u v w : Value} {o o' : Ordering} {c : Scale}

/-- Numbers that are not NaN, and that a double can stand for, are compared by
their places on the line. -/
theorem compareNumbers_eq_ok (hx : x.isNaN = .ok false) (hy : y.isNaN = .ok false) :
    ∃ a b, x.extended? = some a ∧ y.extended? = some b ∧
      compareNumbers x y = .ok (a.compare b) := by
  have hplace : ∀ {z : Number}, z.isNaN = .ok false → ∃ a, z.extended? = some a := by
    intro z hz
    refine Number.extended?_isSome ?_
    rintro rfl
    cases hz
  obtain ⟨a, ha⟩ := hplace hx
  obtain ⟨b, hb⟩ := hplace hy
  refine ⟨a, b, ha, hb, ?_⟩
  unfold compareNumbers
  rw [hx, hy, ha, hb]
  rfl

theorem isNaN_of_compareNumbers (h : compareNumbers x y = .ok o) :
    x.isNaN = .ok false ∧ y.isNaN = .ok false := by
  unfold compareNumbers at h
  rcases hx : x.isNaN with l | nan <;> rw [hx] at h
  · cases h
  rcases hy : y.isNaN with l | nan' <;> rw [hy] at h
  · cases nan <;> cases h
  cases nan
  · cases nan'
    · exact ⟨rfl, rfl⟩
    · cases h
  · cases h

theorem scale?_number : (Value.number x).scale? = some c ↔ x.isNaN = .ok false ∧ c = .numbers := by
  rw [scale?]
  split
  · next h => simp [h, eq_comm]
  · next h => exact iff_of_false (fun hc => by cases hc) fun hx => h hx.1

/-! ## Values -/

/-- Two values have an order exactly if they are on one scale. -/
theorem hasOrder_iff : v.HasOrder w ↔ ∃ c, v.scale? = some c ∧ w.scale? = some c := by
  constructor
  · rintro ⟨o, h⟩
    unfold compare at h
    split at h
    · obtain ⟨hx, hy⟩ := isNaN_of_compareNumbers h
      exact ⟨.numbers, scale?_number.mpr ⟨hx, rfl⟩, scale?_number.mpr ⟨hy, rfl⟩⟩
    · exact ⟨.texts, rfl, rfl⟩
    · cases h
  · rintro ⟨c, hv, hw⟩
    cases v with
    | number x =>
        obtain ⟨hx, rfl⟩ := scale?_number.mp hv
        cases w with
        | number y =>
            obtain ⟨hy, -⟩ := scale?_number.mp hw
            obtain ⟨a, b, -, -, h⟩ := compareNumbers_eq_ok hx hy
            exact ⟨_, h⟩
        | _ => cases hw
    | str s =>
        cases hv
        cases w with
        | str t => exact ⟨_, rfl⟩
        | number y => cases (scale?_number.mp hw).2
        | _ => cases hw
    | _ => cases hv

theorem HasOrder.symm (h : v.HasOrder w) : w.HasOrder v := by
  rw [hasOrder_iff] at h ⊢
  obtain ⟨c, hv, hw⟩ := h
  exact ⟨c, hw, hv⟩

theorem HasOrder.trans (huv : u.HasOrder v) (hvw : v.HasOrder w) : u.HasOrder w := by
  rw [hasOrder_iff] at huv hvw ⊢
  obtain ⟨c, hu, hv⟩ := huv
  obtain ⟨c', hv', hw⟩ := hvw
  obtain rfl := Option.some.inj (hv.symm.trans hv')
  exact ⟨c, hu, hw⟩

theorem compare_swap (h : v.compare w = .ok o) : w.compare v = .ok o.swap := by
  unfold compare at h
  split at h
  · next x y =>
      obtain ⟨hx, hy⟩ := isNaN_of_compareNumbers h
      obtain ⟨a, b, ha, hb, hxy⟩ := compareNumbers_eq_ok hx hy
      obtain ⟨b', a', hb', ha', hyx⟩ := compareNumbers_eq_ok hy hx
      obtain rfl := Option.some.inj (ha.symm.trans ha')
      obtain rfl := Option.some.inj (hb.symm.trans hb')
      obtain rfl := Except.ok.inj (hxy.symm.trans h)
      show compareNumbers y x = _
      rw [hyx, Extended.compare_swap b a]
  · next s t =>
      obtain rfl := Except.ok.inj h
      show Except.ok (compareStrings t s) = _
      rw [compareStrings_swap t s]
  · cases h

theorem compare_trans (huv : u.compare v = .ok o) (hvw : v.compare w = .ok o') (ho : o.isLE)
    (ho' : o'.isLE) : ∃ o'', u.compare w = .ok o'' ∧ o''.isLE := by
  obtain ⟨c, hu, hw⟩ := hasOrder_iff.mp (HasOrder.trans ⟨o, huv⟩ ⟨o', hvw⟩)
  obtain ⟨-, -, hv⟩ := hasOrder_iff.mp ⟨o, huv⟩
  cases u with
  | number x =>
      cases v with
      | number y =>
          cases w with
          | number z =>
              obtain ⟨hx, hy⟩ := isNaN_of_compareNumbers huv
              obtain ⟨-, hz⟩ := isNaN_of_compareNumbers hvw
              obtain ⟨a, b, ha, hb, hxy⟩ := compareNumbers_eq_ok hx hy
              obtain ⟨b', c', hb', hc', hyz⟩ := compareNumbers_eq_ok hy hz
              obtain ⟨a'', c'', ha'', hc'', hxz⟩ := compareNumbers_eq_ok hx hz
              obtain rfl := Option.some.inj (ha.symm.trans ha'')
              obtain rfl := Option.some.inj (hb.symm.trans hb')
              obtain rfl := Option.some.inj (hc'.symm.trans hc'')
              obtain rfl := Except.ok.inj (hxy.symm.trans huv)
              obtain rfl := Except.ok.inj (hyz.symm.trans hvw)
              exact ⟨_, hxz, Extended.compare_trans ho ho'⟩
          | _ => cases hvw
      | _ => cases huv
  | str s =>
      cases v with
      | str t =>
          cases w with
          | str r =>
              obtain rfl := Except.ok.inj huv
              obtain rfl := Except.ok.inj hvw
              exact ⟨_, rfl, compareStrings_trans ho ho'⟩
          | _ => cases hvw
      | _ => cases huv
  | _ => cases hu

/-! ## Equality -/

theorem compareStrings_eq (s t : String) : compareStrings s t = compareOfLessAndEq s t := by
  unfold compareStrings compareOfLessAndEq
  by_cases hst : s < t
  · rw [if_pos hst, if_pos hst]
  · rw [if_neg hst, if_neg hst]
    by_cases hts : t < s
    · have hne : s ≠ t := by
        rintro rfl
        exact hst hts
      rw [if_pos hts, if_neg hne]
    · rw [if_neg hts, if_pos (String.le_antisymm (String.not_lt.mp hts) (String.not_lt.mp hst))]

theorem compareStrings_eq_lt_iff {s t : String} : compareStrings s t = .lt ↔ s < t := by
  unfold compareStrings
  split
  · next hlt => exact iff_of_true rfl hlt
  · next hlt =>
      refine iff_of_false ?_ hlt
      split <;> exact Ordering.noConfusion

theorem compareStrings_eq_eq_iff {s t : String} : compareStrings s t = .eq ↔ s = t := by
  rw [compareStrings_eq]
  exact compareOfLessAndEq_eq_eq String.le_refl String.not_le

/-- Values that have an order are at the same place of it if they are equal. -/
theorem eq_iff_equal_of_compare (h : v.compare w = .ok o) : o = .eq ↔ v.equal w = true := by
  unfold compare at h
  split at h
  · next x y =>
      obtain ⟨hx, hy⟩ := isNaN_of_compareNumbers h
      obtain ⟨a, b, ha, hb, hxy⟩ := compareNumbers_eq_ok hx hy
      obtain rfl := Except.ok.inj (hxy.symm.trans h)
      rw [equal, Number.equal, ha, hb]
      exact beq_iff_eq.symm
  · next s t =>
      obtain rfl := Except.ok.inj h
      rw [equal, beq_iff_eq]
      exact compareStrings_eq_eq_iff
  · cases h

/-! ## The order of values -/

theorem compare_error_iff : (∃ e, v.compare w = .error e) ↔ ¬v.HasOrder w := by
  unfold HasOrder
  cases v.compare w <;> simp

/-- The order of values is a total preorder on the values that have one, equality
is its equivalence, and strings are ordered as their bytes are. -/
theorem compare_preorder :
    (∀ v w : Value, (∃ e, v.compare w = .error e) ↔ ∃ e, w.compare v = .error e) ∧
      (∀ (v w : Value) (o : Ordering), v.compare w = .ok o →
        w.compare v = .ok o.swap ∧ (o = .eq ↔ v.equal w = true)) ∧
      (∀ (u v w : Value) (o o' : Ordering), u.compare v = .ok o → v.compare w = .ok o' →
        ∃ o'', u.compare w = .ok o'' ∧ (o.isLE → o'.isLE → o''.isLE)) ∧
      ∀ s t : String, (str s).compare (str t) =
        .ok (compareOfLessAndEq (Text.bytes s) (Text.bytes t)) := by
  refine ⟨fun v w => ?_, fun v w o h => ⟨compare_swap h, eq_iff_equal_of_compare h⟩,
    fun u v w o o' huv hvw => ?_, fun s t => ?_⟩
  · rw [compare_error_iff, compare_error_iff]
    exact not_congr ⟨HasOrder.symm, HasOrder.symm⟩
  · obtain ⟨o'', huw⟩ := HasOrder.trans ⟨o, huv⟩ ⟨o', hvw⟩
    refine ⟨o'', huw, fun ho ho' => ?_⟩
    obtain ⟨p, hp, hle⟩ := compare_trans huv hvw ho ho'
    cases huw.symm.trans hp
    exact hle
  · rw [Text.compare_bytes, ← compareStrings_eq]
    rfl

/-- An integer between two doubles, and the end of the line. -/
theorem compare_preorder_pastDoubles :
    (int 9007199254740993).compare (.number (.double (.finite false 4503599627370497 1))) =
        .ok .lt ∧
      (Value.number (.double (.finite false 4503599627370497 1))).compare
        (.number (.double (.infinite false))) = .ok .lt ∧
      (Value.number (.double (.finite false 4503599627370497 1))).compare (int 9007199254740993) =
        .ok .gt ∧
      (∃ o, (int 9007199254740993).compare (.number (.double (.infinite false))) = .ok o ∧
        o.isLE) := by
  have hfirst : (int 9007199254740993).compare
      (.number (.double (.finite false 4503599627370497 1))) = .ok .lt := rfl
  have hsecond : (Value.number (.double (.finite false 4503599627370497 1))).compare
      (.number (.double (.infinite false))) = .ok .lt := rfl
  obtain ⟨-, hswap, htrans, -⟩ := compare_preorder
  obtain ⟨o, ho, hle⟩ := htrans _ _ _ _ _ hfirst hsecond
  exact ⟨hfirst, hsecond, (hswap _ _ _ hfirst).1, o, ho, hle rfl rfl⟩

end Value

end Conduit
