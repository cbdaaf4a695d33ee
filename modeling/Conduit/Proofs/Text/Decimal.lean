import Conduit.Clock.Moment
import Mathlib.Data.Nat.Digits.Defs

/-!
# Numbers in texts of one length

Texts of one length stand in the order of the first place in which they differ.
So decimals that are padded to one width are ordered as their numbers are, and
what is written as its quotient by a radix, in texts of one length, and then as
its remainder, is ordered as it is itself.
-/

namespace Conduit.Text

/-- Texts that numbers below a bound are written as: of one length, and in the
order of the numbers. -/
structure Sorts (bound : Nat) (text : Nat → List Char) : Prop where
  length_eq : ∀ {m n : Nat}, m < bound → n < bound → (text m).length = (text n).length
  lt : ∀ {m n : Nat}, m < n → n < bound → text m < text n

theorem append_lt_append_of_length {cs ds : List Char} (hlength : cs.length = ds.length)
    (h : cs < ds) (xs ys : List Char) : cs ++ xs < ds ++ ys := by
  induction cs generalizing ds with
  | nil =>
      obtain rfl := List.eq_nil_of_length_eq_zero hlength.symm
      exact absurd h (List.lt_irrefl _)
  | cons c cs ih =>
      cases ds with
      | nil => cases hlength
      | cons d ds =>
          rw [List.cons_append, List.cons_append]
          rcases List.cons_lt_cons_iff.mp h with hlt | ⟨rfl, hrest⟩
          · exact List.cons_lt_cons_iff.mpr (.inl hlt)
          · exact List.cons_lt_cons_iff.mpr (.inr ⟨rfl, ih (Nat.succ.inj hlength) hrest⟩)

namespace Sorts

variable {a b : Nat} {f g : Nat → List Char}

theorem lt_iff {m n : Nat} (h : Sorts a f) (hm : m < a) (hn : n < a) : f m < f n ↔ m < n := by
  refine ⟨fun hlt => Nat.lt_of_not_le fun hle => ?_, fun hlt => h.lt hlt hn⟩
  rcases Nat.lt_or_eq_of_le hle with hless | rfl
  · exact List.lt_asymm hlt (h.lt hless hm)
  · exact List.lt_irrefl _ hlt

theorem eq_iff {m n : Nat} (h : Sorts a f) (hm : m < a) (hn : n < a) : f m = f n ↔ m = n := by
  refine ⟨fun heq => ?_, congrArg f⟩
  rcases Nat.lt_trichotomy m n with hlt | rfl | hlt
  · exact absurd (heq ▸ h.lt hlt hn) (List.lt_irrefl _)
  · rfl
  · exact absurd (heq ▸ h.lt hlt hm) (List.lt_irrefl _)

theorem append (h : Sorts a f) (tail : List Char) : Sorts a fun n => f n ++ tail where
  length_eq hm hn := by rw [List.length_append, List.length_append, h.length_eq hm hn]
  lt hlt hn := append_lt_append_of_length (h.length_eq (Nat.lt_trans hlt hn) hn) (h.lt hlt hn) _ _

/-- A number as its quotient by a radix and its remainder. -/
theorem pair (hf : Sorts a f) (hg : Sorts b g) : Sorts (a * b) fun n => f (n / b) ++ g (n % b) := by
  have hquotient : ∀ {n}, n < a * b → n / b < a := fun h =>
    Nat.div_lt_of_lt_mul (Nat.mul_comm a b ▸ h)
  have hremainder : ∀ {n}, n < a * b → n % b < b := fun h =>
    Nat.mod_lt _ (Nat.pos_of_mul_pos_left (Nat.zero_lt_of_lt h))
  refine ⟨fun hm hn => ?_, fun {m n} hlt hn => ?_⟩
  · rw [List.length_append, List.length_append, hf.length_eq (hquotient hm) (hquotient hn),
      hg.length_eq (hremainder hm) (hremainder hn)]
  · have hm := Nat.lt_trans hlt hn
    rcases Nat.lt_or_eq_of_le (Nat.div_le_div_right (c := b) (Nat.le_of_lt hlt)) with hless | heq
    · exact append_lt_append_of_length (hf.length_eq (hquotient hm) (hquotient hn))
        (hf.lt hless (hquotient hn)) _ _
    · have hmod : m % b < n % b := by
        have hsplit := Nat.div_add_mod m b
        have hsplit' := Nat.div_add_mod n b
        rw [heq] at hsplit
        omega
      show f (m / b) ++ g (m % b) < f (n / b) ++ g (n % b)
      rw [heq]
      exact List.append_left_lt (hg.lt hmod (hremainder hn))

/-- Other numbers, in the same order, may be written in place of the numbers. -/
theorem comp (h : Sorts a f) {index : Nat → Nat} (hlt : ∀ {m n}, m < n → index m < index n)
    (hbound : ∀ {n}, n < b → index n < a) : Sorts b fun n => f (index n) where
  length_eq hm hn := h.length_eq (hbound hm) (hbound hn)
  lt hmn hn := h.lt (hlt hmn) (hbound hn)

theorem mono (h : Sorts a f) (hle : b ≤ a) : Sorts b f :=
  h.comp id fun hn => Nat.lt_of_lt_of_le hn hle

end Sorts

/-! ## Decimals -/

/-- The last digits of a number, as many as are asked for. -/
def lastDigits : Nat → Nat → List Char
  | 0, _ => []
  | width + 1, n => lastDigits width (n / 10) ++ [Nat.digitChar (n % 10)]

theorem sorts_lastDigits (width : Nat) : Sorts (Nat.pow 10 width) (lastDigits width) := by
  have hdigit : Sorts 10 fun n => [Nat.digitChar n] := by
    refine ⟨fun _ _ => rfl, fun {m n} hlt hn => ?_⟩
    have hchar : ∀ n < 10, ∀ m < n, Nat.digitChar m < Nat.digitChar n := by decide
    exact List.cons_lt_cons_iff.mpr (.inl (hchar n hn m hlt))
  induction width with
  | zero =>
      refine ⟨fun _ _ => rfl, fun {m n} hlt hn => ?_⟩
      have hnone : n < 1 := hn
      omega
  | succ width ih => exact ih.pair hdigit

theorem lastDigits_zero (width : Nat) : lastDigits width 0 = List.replicate width '0' := by
  induction width with
  | zero => rfl
  | succ width ih =>
      rw [lastDigits, ih, List.replicate_succ']
      rfl

/-- The decimal of a number that has no more places. -/
theorem toDigits_padded (width : Nat) {n : Nat} (h : n < Nat.pow 10 (width + 1)) :
    List.replicate (width + 1 - (Nat.toDigits 10 n).length) '0' ++ Nat.toDigits 10 n =
      lastDigits (width + 1) n := by
  induction width generalizing n with
  | zero =>
      have hdigit : n < 10 := h
      rw [Nat.toDigits_of_lt_base hdigit, lastDigits, lastDigits, Nat.mod_eq_of_lt hdigit]
      rfl
  | succ width ih =>
      rw [lastDigits]
      rcases Nat.lt_or_ge n 10 with hdigit | hmore
      · rw [Nat.toDigits_of_lt_base hdigit, Nat.div_eq_of_lt hdigit, lastDigits_zero,
          Nat.mod_eq_of_lt hdigit]
        rfl
      · have hpow : Nat.pow 10 (width + 1 + 1) = 10 * Nat.pow 10 (width + 1) := Nat.mul_comm _ _
        have hquotient : n / 10 < Nat.pow 10 (width + 1) := Nat.div_lt_of_lt_mul (hpow ▸ h)
        rw [Nat.toDigits_of_base_le (by decide) hmore, ← ih hquotient, List.length_append,
          List.length_singleton, Nat.add_sub_add_right, List.append_assoc]

theorem toList_padded (width : Nat) {n : Nat} (h : n < Nat.pow 10 (width + 1)) :
    (Moment.padded (width + 1) n).toList = lastDigits (width + 1) n := by
  have hdigits : (toString n).toList = Nat.toDigits 10 n := Nat.toList_repr
  rw [← toDigits_padded width h, Moment.padded, String.toList_append, String.toList_ofList,
    ← String.length_toList, hdigits]

/-- A number of two or more places is written without zeros in front. -/
theorem toList_toString_places (width : Nat) {n : Nat} (hleast : Nat.pow 10 (width + 1) ≤ n)
    (h : n < Nat.pow 10 (width + 2)) : (toString n).toList = lastDigits (width + 2) n := by
  have hdigits : (toString n).toList = Nat.toDigits 10 n := Nat.toList_repr
  have hlength : width + 2 ≤ (Nat.toDigits 10 n).length := by
    refine Nat.lt_of_not_le fun hle => Nat.not_lt_of_le hleast ?_
    exact (Nat.length_toDigits_le_iff (by decide) (Nat.succ_pos width)).mp hle
  rw [← toDigits_padded (width + 1) h, Nat.sub_eq_zero_of_le hlength, hdigits]
  rfl

end Conduit.Text
