import Conduit.Comparison
import Conduit.Eval.Operation
import Conduit.Proofs.Number.Double
import Conduit.Value.Text

/-!
# When numbers run past a limit

Integers have any size, doubles have not. Each way in which an integer is
asked to become a double or a text has its exact bound here: an order needs
both operands as doubles, arithmetic needs an integer as a double only next
to a double, a quotient has to be one itself, and a text has a longest
numeral.
-/

namespace Conduit

section Except

variable {ε ε' α : Type} {f : ε → ε'}

@[simp] theorem mapError_ok (a : α) : (Except.ok a).mapError f = .ok a := rfl

@[simp] theorem mapError_error (e : ε) : (.error e : Except ε α).mapError f = .error (f e) := rfl

end Except

namespace Number

variable {x y : Number} {l : Limit}

/-- An integer beyond all doubles. -/
def IsHuge : Number → Prop
  | .int n => Double.overflowBound ≤ n.natAbs
  | .double _ => False

def AreIntegers : Number → Number → Prop
  | .int _, .int _ => True
  | _, _ => False

/-- An integer beyond all doubles next to a double. -/
def Clashes (x y : Number) : Prop := ¬x.AreIntegers y ∧ (x.IsHuge ∨ y.IsHuge)

/-- Integers whose quotient is neither an integer nor a double. -/
def HugeQuotient : Number → Number → Prop
  | .int m, .int n => ¬m % n = 0 ∧ Double.overflowBound * n.natAbs ≤ m.natAbs
  | _, _ => False

theorem ofInt?_eq_none_iff {n : Int} :
    Double.ofInt? n = none ↔ Double.overflowBound ≤ n.natAbs := by
  rw [← Nat.mul_one Double.overflowBound, ← Double.roundRatio_eq_infinite_iff (n < 0) Nat.one_pos]
  unfold Double.ofInt?
  split
  · next s hs => exact ⟨fun _ => ⟨s, hs⟩, fun _ => rfl⟩
  · next hfinite =>
      constructor
      · intro h
        cases h
      · rintro ⟨s, hs⟩
        exact absurd hs (hfinite s)

theorem toDouble_eq_error_iff : x.toDouble = .error l ↔ x.IsHuge ∧ l = .intTooLarge := by
  cases x with
  | double x => simp [toDouble, IsHuge]
  | int n =>
      rw [toDouble, IsHuge, ← ofInt?_eq_none_iff]
      cases Double.ofInt? n <;> simp [eq_comm]

/-! ## Arithmetic -/

/-- An operation on doubles asks both operands to be doubles. -/
theorem bind_toDouble_eq_error_iff {f : Double → Double → Number} :
    (do let a ← x.toDouble; let b ← y.toDouble; .ok (f a b)) = .error l ↔
      (x.IsHuge ∨ y.IsHuge) ∧ l = .intTooLarge := by
  rw [or_and_right, ← toDouble_eq_error_iff, ← toDouble_eq_error_iff]
  cases hx : x.toDouble with
  | ok a => cases y.toDouble <;> simp [bind, Except.bind]
  | error l' =>
      have hl := (toDouble_eq_error_iff.mp hx).2
      simp only [bind, Except.bind, Except.error.injEq]
      constructor
      · exact .inl
      · rintro (h | h)
        · exact h
        · rw [(toDouble_eq_error_iff.mp h).2, hl]

theorem not_areIntegers (h : ∀ m n, x = .int m → y = .int n → False) : ¬x.AreIntegers y := by
  cases x with
  | double d => exact id
  | int m =>
      cases y with
      | double d => exact id
      | int n => exact fun _ => h m n rfl rfl

theorem combine_eq_error_iff {ints : Int → Int → Int} {doubles : Double → Double → Double} :
    combine ints doubles x y = .error l ↔ x.Clashes y ∧ l = .intTooLarge := by
  unfold combine Clashes
  split
  · simp [AreIntegers]
  · next hmixed =>
      rw [bind_toDouble_eq_error_iff, and_iff_right (not_areIntegers hmixed)]

theorem div_int_eq_error_iff {m n : Int} (hn : n ≠ 0) :
    (Number.int m).div (.int n) = .error l ↔
      (Number.int m).HugeQuotient (.int n) ∧ l = .quotientTooLarge := by
  have hpos : 0 < n.natAbs := Int.natAbs_pos.mpr hn
  rw [div, HugeQuotient, ← Double.roundRatio_eq_infinite_iff ((m < 0) != (n < 0)) hpos]
  split
  · next hdvd => simp [hdvd]
  · next hdvd =>
      split
      · next s hs => simp [hdvd, hs, eq_comm]
      · next q hfinite =>
          constructor
          · intro h
            cases h
          · rintro ⟨⟨-, s, hs⟩, -⟩
            exact absurd hs (hfinite s)

theorem div_eq_error_iff (hy : y.isZero = false) :
    x.div y = .error l ↔
      x.Clashes y ∧ l = .intTooLarge ∨ x.HugeQuotient y ∧ l = .quotientTooLarge := by
  cases x with
  | int m =>
      cases y with
      | int n =>
          rw [div_int_eq_error_iff (by simpa [isZero] using hy)]
          simp [Clashes, AreIntegers]
      | double d =>
          rw [div, bind_toDouble_eq_error_iff]
          · simp [Clashes, AreIntegers, HugeQuotient]
          · simp
  | double c =>
      rw [div, bind_toDouble_eq_error_iff]
      · simp [Clashes, AreIntegers, HugeQuotient]
      · simp

/-! ## Order -/

/-- Two numbers that an order asks to be doubles although one cannot be. The
second is not looked at if the first is NaN. -/
def Unorderable (x y : Number) : Prop := x.IsHuge ∨ x ≠ .double .nan ∧ y.IsHuge

theorem isNaN_ofInt? {n : Int} {d : Double} (h : Double.ofInt? n = some d) : d.isNaN = false := by
  unfold Double.ofInt? at h
  split at h
  · cases h
  · cases h
    exact Double.isNaN_roundRatio _ _ _

theorem isNaN_eq_error_iff : x.isNaN = .error l ↔ x.IsHuge ∧ l = .intTooLarge := by
  rw [← toDouble_eq_error_iff, isNaN]
  cases x.toDouble <;> simp [Except.map]

/-- A number that can be looked at as a double is NaN only if it is written so. -/
theorem isNaN_eq_ok (h : ¬x.IsHuge) : x.isNaN = .ok (decide (x = .double .nan)) := by
  cases x with
  | double d => cases d <;> rfl
  | int n =>
      obtain ⟨d, hd⟩ := Option.ne_none_iff_exists'.mp (mt ofInt?_eq_none_iff.mp h)
      rw [isNaN, toDouble, hd]
      simp [Except.map, isNaN_ofInt? hd]

theorem compareNumbers_eq_error_iff :
    Value.compareNumbers x y = .error (.limit l) ↔ x.Unorderable y ∧ l = .intTooLarge := by
  unfold Value.compareNumbers Unorderable
  by_cases hx : x.IsHuge
  · rw [isNaN_eq_error_iff.mpr ⟨hx, rfl⟩]
    simp [bind, Except.bind, hx, eq_comm]
  · rw [isNaN_eq_ok hx]
    by_cases hnan : x = .double .nan
    · subst hnan
      simp [bind, Except.bind, IsHuge, throw, throwThe, MonadExceptOf.throw]
    · by_cases hy : y.IsHuge
      · rw [isNaN_eq_error_iff.mpr ⟨hy, rfl⟩]
        simp [bind, Except.bind, hx, hnan, hy, eq_comm]
      · rw [isNaN_eq_ok hy]
        refine iff_of_false (fun h => ?_) (by simp [hx, hy])
        simp only [hnan, mapError_ok, bind, Except.bind, decide_false, Bool.false_eq_true,
          if_false] at h
        split at h
        · cases h
        · split at h <;> cases h

/-! ## Texts -/

/-- An integer of more digits than a numeral may have. -/
def IsLong : Number → Prop
  | .int n => Nat.pow 10 Limit.numeralDigits ≤ n.natAbs
  | .double _ => False

theorem text_eq_error_iff {layout : Layout} :
    x.text layout = .error l ↔ x.IsLong ∧ l = .longInteger := by
  cases x with
  | double d => simp [text, IsLong]
  | int n =>
      rw [text, IsLong]
      split
      · next h => exact ⟨fun hl => ⟨h, by cases hl; rfl⟩, fun hl => by rw [hl.2]⟩
      · next h => exact ⟨fun hl => (by cases hl), fun hl => absurd hl.1 h⟩

end Number

/-! ## Values -/

namespace Comparison

/-- Whether a comparison asks for an order, not for equality alone. -/
def IsOrder : Comparison → Prop
  | .eq => False
  | .ne => False
  | _ => True

theorem compare_eq_error_iff {v w : Value} {l : Limit} :
    v.compare w = .error (.limit l) ↔
      ∃ x y, v = .number x ∧ w = .number y ∧ x.Unorderable y ∧ l = .intTooLarge := by
  unfold Value.compare
  split
  · next x y =>
      rw [Number.compareNumbers_eq_error_iff]
      simp
  · simp [pure, Except.pure]
  · next v w hnumbers hstrings =>
      refine iff_of_false (fun h => by cases h) ?_
      rintro ⟨x, y, rfl, rfl, -⟩
      exact hnumbers x y rfl rfl

theorem holds_eq_error_iff {op : Comparison} {v w : Value} {l : Limit} :
    op.holds v w = .error (.limit l) ↔
      op.IsOrder ∧ ∃ x y, v = .number x ∧ w = .number y ∧ x.Unorderable y ∧ l = .intTooLarge := by
  rw [← compare_eq_error_iff]
  cases op with
  | eq => simp [holds, IsOrder]
  | ne => simp [holds, IsOrder]
  | _ =>
      simp only [holds, IsOrder, true_and]
      cases v.compare w <;> simp [Except.map]

end Comparison

namespace Value

mutual

/-- A value that holds an integer of too many digits, at any depth. -/
def HasLongInteger : Value → Prop
  | .number n => n.IsLong
  | .arr xs => ItemsHaveLongInteger xs
  | .obj fs => FieldsHaveLongInteger fs
  | .mapping es => EntriesHaveLongInteger es
  | _ => False

def ItemsHaveLongInteger : List Value → Prop
  | [] => False
  | x :: xs => HasLongInteger x ∨ ItemsHaveLongInteger xs

def FieldsHaveLongInteger : List (String × Value) → Prop
  | [] => False
  | (_, v) :: more => HasLongInteger v ∨ FieldsHaveLongInteger more

def EntriesHaveLongInteger : List (Value × Value) → Prop
  | [] => False
  | (k, v) :: more => HasLongInteger k ∨ HasLongInteger v ∨ EntriesHaveLongInteger more

end

/-- Of two texts that are made one after another, one cannot be made. -/
theorem bind_eq_error_iff {α β : Type} {P Q : Prop} {x : Except Limit α} {f : α → Except Limit β}
    (hx : ∀ l, x = .error l ↔ P ∧ l = .longInteger)
    (hf : ∀ a l, f a = .error l ↔ Q ∧ l = .longInteger) (l : Limit) :
    (x >>= f) = .error l ↔ (P ∨ Q) ∧ l = .longInteger := by
  cases x with
  | ok a =>
      have hP : ¬P := fun h => by cases (hx .longInteger).mpr ⟨h, rfl⟩
      rw [or_iff_right hP, ← hf a l]
      rfl
  | error l' =>
      obtain ⟨hP, rfl⟩ := (hx l').mp rfl
      exact ⟨fun h => (by cases h; exact ⟨.inl hP, rfl⟩), fun h => by rw [h.2]; rfl⟩

/-- Making something of a text adds no failure. -/
theorem bind_ok_eq_error_iff {α β : Type} {P : Prop} {x : Except Limit α} {f : α → β}
    (hx : ∀ l, x = .error l ↔ P ∧ l = .longInteger) (l : Limit) :
    (do let a ← x; .ok (f a)) = .error l ↔ P ∧ l = .longInteger := by
  rw [← hx l]
  cases x <;> simp [bind, Except.bind]

mutual

/-- Only an integer that is too long keeps a value from having a JSON text. -/
theorem json_eq_error_iff : ∀ (v : Value) (l : Limit),
    v.json = .error l ↔ v.HasLongInteger ∧ l = .longInteger
  | .null, _ => by simp [json, HasLongInteger]
  | .bool _, _ => by simp [json, HasLongInteger]
  | .number n, _ => Number.text_eq_error_iff
  | .str _, _ => by simp [json, HasLongInteger]
  | .date _, _ => by simp [json, HasLongInteger]
  | .arr xs, l => by
      rw [json, HasLongInteger]
      exact bind_ok_eq_error_iff (jsonItems_eq_error_iff xs) l
  | .obj fs, l => by
      rw [json, HasLongInteger]
      exact bind_ok_eq_error_iff (jsonFields_eq_error_iff fs) l
  | .mapping es, l => by
      rw [json, HasLongInteger]
      exact bind_ok_eq_error_iff (jsonEntries_eq_error_iff es) l

theorem jsonItems_eq_error_iff : ∀ (xs : List Value) (l : Limit),
    jsonItems xs = .error l ↔ ItemsHaveLongInteger xs ∧ l = .longInteger
  | [], _ => by simp [jsonItems, ItemsHaveLongInteger]
  | x :: xs, l => by
      rw [jsonItems, ItemsHaveLongInteger]
      exact bind_eq_error_iff (json_eq_error_iff x)
        (fun _ => bind_ok_eq_error_iff (jsonItems_eq_error_iff xs)) l

theorem jsonFields_eq_error_iff : ∀ (fs : List (String × Value)) (l : Limit),
    jsonFields fs = .error l ↔ FieldsHaveLongInteger fs ∧ l = .longInteger
  | [], _ => by simp [jsonFields, FieldsHaveLongInteger]
  | (k, v) :: more, l => by
      rw [jsonFields, FieldsHaveLongInteger]
      exact bind_eq_error_iff (json_eq_error_iff v)
        (fun _ => bind_ok_eq_error_iff (jsonFields_eq_error_iff more)) l

theorem jsonEntries_eq_error_iff : ∀ (es : List (Value × Value)) (l : Limit),
    jsonEntries es = .error l ↔ EntriesHaveLongInteger es ∧ l = .longInteger
  | [], _ => by simp [jsonEntries, EntriesHaveLongInteger]
  | (k, v) :: more, l => by
      rw [jsonEntries, EntriesHaveLongInteger]
      refine bind_eq_error_iff (json_eq_error_iff k) (fun _ => ?_) l
      exact bind_eq_error_iff (json_eq_error_iff v)
        (fun _ => bind_ok_eq_error_iff (jsonEntries_eq_error_iff more))

end

end Value

end Conduit
