import Conduit.Limit
import Conduit.Text.Backslash
import Conduit.Text.Blank
import Conduit.Text.Digit
import Conduit.Text.Word

/-!
# Names and numerals in texts

Escaping a name and reading its escapes gives the name back, and so do the
digits of a number. The digits of other scripts are read as well, but none of
them is written.
-/

namespace Conduit.Text

/-! ## Escapes -/

theorem unescape_cons {c : Char} (h : c ≠ '\\') (cs : List Char) :
    unescape (c :: cs) = c :: unescape cs := by
  rw [unescape]
  rintro d rest rfl
  exact absurd rfl h

theorem unescape_protected {c : Char} (h : c ≠ '\n') (cs : List Char) :
    unescape ('\\' :: c :: cs) = c :: unescape cs := by
  rw [unescape, if_neg h]

theorem escape_cons (q c : Char) (cs : List Char) :
    escape q (c :: cs) = (if c = '\\' ∨ c = q then ['\\', c] else [c]) ++ escape q cs := rfl

theorem unescape_escape {q : Char} (hq : q ≠ '\n') (cs : List Char) :
    unescape (escape q cs) = cs := by
  induction cs with
  | nil => rfl
  | cons c rest ih =>
      rw [escape_cons]
      split
      · next h =>
          have hc : c ≠ '\n' := by
            rintro rfl
            exact h.elim (by decide) (Ne.symm hq)
          exact (unescape_protected hc _).trans (congrArg (c :: ·) ih)
      · next h =>
          exact (unescape_cons (fun hc => h (.inl hc)) _).trans (congrArg (c :: ·) ih)

/-- Reading escapes adds no characters. -/
theorem mem_of_mem_unescape {c : Char} {cs : List Char} (h : c ∈ unescape cs) : c ∈ cs := by
  fun_induction unescape cs with
  | case1 rest ih =>
      rcases List.mem_cons.mp h with rfl | h
      · exact List.mem_cons_self
      · rcases List.mem_cons.mp h with rfl | h
        · exact .tail _ List.mem_cons_self
        · exact .tail _ (.tail _ (ih h))
  | case2 d rest hd ih =>
      rcases List.mem_cons.mp h with rfl | h
      · exact .tail _ List.mem_cons_self
      · exact .tail _ (.tail _ (ih h))
  | case3 d rest hd ih =>
      rcases List.mem_cons.mp h with rfl | h
      · exact List.mem_cons_self
      · exact .tail _ (ih h)
  | case4 => exact h

/-! ## Runs of characters -/

section Runs

variable {p : Char → Bool} {cs rest : List Char}

/-- The characters of a class come to an end where the rest begins. -/
def Stops (p : Char → Bool) (rest : List Char) : Prop := ∀ c ∈ rest.head?, p c = false

theorem takeWhile_append (h : ∀ c ∈ cs, p c = true) (hrest : Stops p rest) :
    (cs ++ rest).takeWhile p = cs := by
  rw [List.takeWhile_append_of_pos h]
  cases rest with
  | nil => simp
  | cons c more => simp [hrest c rfl]

theorem Stops.cons {c : Char} (h : p c = false) : Stops p (c :: rest) := by
  rintro d hd
  cases hd
  exact h

theorem Stops.nil : Stops p [] := by
  rintro c hc
  cases hc

end Runs

/-! ## Blanks -/

theorem isBlank_eq_false {c : Char} (h : 33 ≤ c.toNat) (h' : c.toNat < 133) :
    isBlank c = false := by
  simp only [isBlank, inRuns, blankRuns, crossRuns]
  grind

/-- No digit of any script is blank. -/
theorem isBlank_of_isDigit {c : Char} (h : isDigit c = true) : isBlank c = false := by
  simp only [isDigit, digitValue?, Option.isSome_map, List.find?_isSome, decide_eq_true_eq] at h
  obtain ⟨z, hz, hlow, hhigh⟩ := h
  have hruns : ∀ z ∈ digitZeros, ∀ k < 10, crossRuns (z + k) blankRuns false = false := by decide
  have hblank := hruns z hz (c.toNat - z) (by omega)
  rwa [Nat.add_sub_cancel' hlow] at hblank

/-- The code points of all blanks. -/
def blanks : List Nat :=
  [9, 10, 11, 12, 13, 28, 29, 30, 31, 32, 133, 160, 5760, 8192, 8193, 8194, 8195, 8196, 8197, 8198,
    8199, 8200, 8201, 8202, 8232, 8233, 8239, 8287, 12288]

theorem mem_blanks {n : Nat} (h : crossRuns n blankRuns false = true) : n ∈ blanks := by
  simp [blankRuns, crossRuns] at h
  simp only [blanks, List.mem_cons, List.not_mem_nil, or_false]
  omega

/-- No blank is a letter, digit or numeral of any script. -/
theorem isWord_of_isBlank {c : Char} (h : isBlank c = true) : isWord c = false := by
  have hwords : ∀ n ∈ blanks, crossRuns n wordRuns false = false := by decide +kernel
  exact hwords _ (mem_blanks h)
theorem dropBlanks_cons {c : Char} (h : isBlank c = false) (cs : List Char) :
    dropBlanks (c :: cs) = c :: cs := by
  rw [dropBlanks, List.dropWhile_cons, h]
  rfl

/-! ## Numerals -/

/-- No digit stands between those of the first script and those of the second. -/
theorem isDigit_eq_false {c : Char} (h : 58 ≤ c.toNat) (h' : c.toNat < 1632) :
    isDigit c = false := by
  have hzeros : ∀ z ∈ digitZeros, z = 48 ∨ 1632 ≤ z := by decide
  simp only [isDigit, digitValue?, Option.isSome_map, Option.isSome_eq_false_iff,
    Option.isNone_iff_eq_none, List.find?_eq_none, decide_eq_true_eq, not_and, Nat.not_lt]
  intro z hz hle
  rcases hzeros z hz with rfl | hbig <;> omega

theorem digitValue?_of_isDigit {c : Char} (h : c.isDigit = true) :
    digitValue? c = some (c.toNat - '0'.toNat) := by
  have hrun : 48 ≤ c.toNat ∧ c.toNat < 48 + 10 := by
    simp only [Char.isDigit, Bool.and_eq_true, decide_eq_true_eq, ge_iff_le, UInt32.le_iff_toNat_le]
      at h
    exact ⟨h.1, Nat.lt_succ_of_le h.2⟩
  simp [digitValue?, digitZeros, hrun]

theorem isDigit_of_isDigit {c : Char} (h : c.isDigit = true) : isDigit c = true := by
  rw [isDigit, digitValue?_of_isDigit h]
  rfl

theorem isDigit_of_mem_toDigits {n : Nat} {c : Char} (h : c ∈ Nat.toDigits 10 n) :
    isDigit c = true :=
  isDigit_of_isDigit (Nat.isDigit_of_mem_toDigits (by decide) (by decide) h)

/-- Digits of this script are worth the same among those of all scripts. -/
theorem digitsValue_eq {cs : List Char} (h : ∀ c ∈ cs, c.isDigit = true) :
    digitsValue cs = Nat.ofDigitChars 10 cs 0 := by
  have hfrom : ∀ start, cs.foldl (fun n c => 10 * n + (digitValue? c).getD 0) start =
      Nat.ofDigitChars 10 cs start := by
    induction cs with
    | nil => exact fun _ => Nat.ofDigitChars_nil.symm
    | cons c rest ih =>
        intro start
        obtain ⟨hc, hrest⟩ := List.forall_mem_cons.mp h
        rw [List.foldl_cons, Nat.ofDigitChars_cons, digitValue?_of_isDigit hc]
        exact ih hrest _
  exact hfrom 0

theorem digitsValue_toDigits (n : Nat) : digitsValue (Nat.toDigits 10 n) = n := by
  rw [digitsValue_eq fun c hc => Nat.isDigit_of_mem_toDigits (by decide) (by decide) hc]
  exact Nat.ofDigitChars_ten_toDigits

/-- A minus sign, or none. -/
def sign (negative : Bool) : List Char := if negative then ['-'] else []

theorem eq_of_mem_sign {negative : Bool} {c : Char} (h : c ∈ sign negative) : c = '-' := by
  cases negative with
  | true => exact List.mem_singleton.mp h
  | false => cases h

theorem toList_toString (i : Int) :
    (toString i).toList = sign (decide (i < 0)) ++ Nat.toDigits 10 i.natAbs := by
  rw [Int.toString_eq_repr, Int.repr_eq_if]
  split
  · next h =>
      rw [decide_eq_false (Int.not_lt.mpr h), Nat.toList_repr]
      congr 1
      omega
  · next h =>
      rw [decide_eq_true (Int.not_le.mp h), String.toList_append, Nat.toList_repr]
      congr 2
      omega

/-- An integer from its sign and its digits. -/
theorem signed_digitsValue (i : Int) :
    (if decide (i < 0) = true then -(digitsValue (Nat.toDigits 10 i.natAbs) : Int)
      else digitsValue (Nat.toDigits 10 i.natAbs)) = i := by
  rw [digitsValue_toDigits]
  split
  · next h =>
      have := of_decide_eq_true h
      omega
  · next h =>
      have := of_decide_eq_false (Bool.not_eq_true _ ▸ h)
      omega

/-- The integers that are written with as many digits as can be read. -/
def IsShort (i : Int) : Prop := i.natAbs < Nat.pow 10 Limit.numeralDigits

theorem isShort_iff (i : Int) :
    IsShort i ↔ (Nat.toDigits 10 i.natAbs).length ≤ Limit.numeralDigits := by
  rw [IsShort, Nat.pow_eq, Nat.length_toDigits_le_iff (by decide) (by decide)]

theorem digitValue?_lt {c : Char} {d : Nat} (h : digitValue? c = some d) : d < 10 := by
  obtain ⟨z, hz, rfl⟩ := Option.map_eq_some_iff.mp h
  have hrun : z ≤ c.toNat ∧ c.toNat < z + 10 := by simpa using List.find?_some hz
  omega

/-- As many digits write no more than that power of ten. -/
theorem digitsValue_lt (cs : List Char) : digitsValue cs < Nat.pow 10 cs.length := by
  have hfrom : ∀ start, cs.foldl (fun n c => 10 * n + (digitValue? c).getD 0) start <
      (start + 1) * Nat.pow 10 cs.length := by
    induction cs with
    | nil => exact fun start => by simp
    | cons c rest ih =>
        intro start
        have hdigit : (digitValue? c).getD 0 < 10 := by
          cases h : digitValue? c with
          | none => decide
          | some d => exact digitValue?_lt h
        calc rest.foldl _ (10 * start + (digitValue? c).getD 0)
            < (10 * start + (digitValue? c).getD 0 + 1) * Nat.pow 10 rest.length := ih _
          _ ≤ (start + 1) * 10 * Nat.pow 10 rest.length := Nat.mul_le_mul_right _ (by omega)
          _ = (start + 1) * Nat.pow 10 (c :: rest).length := by
            rw [List.length_cons, Nat.pow_eq, Nat.pow_eq, Nat.pow_succ', Nat.mul_assoc]
  have hzero := hfrom 0
  rwa [Nat.zero_add, Nat.one_mul] at hzero

theorem digitsValue_lt_of_le {cs : List Char} {n : Nat} (h : cs.length ≤ n) :
    digitsValue cs < Nat.pow 10 n :=
  Nat.lt_of_lt_of_le (digitsValue_lt cs) (Nat.pow_le_pow_right (by decide) h)

theorem isShort_digitsValue {cs : List Char} (h : cs.length ≤ Limit.numeralDigits)
    (negative : Bool) :
    IsShort (if negative then -(digitsValue cs : Int) else digitsValue cs) := by
  have habs : Int.natAbs (if negative then -(digitsValue cs : Int) else digitsValue cs) =
      digitsValue cs := by
    cases negative <;> simp
  rw [IsShort, habs]
  exact digitsValue_lt_of_le h

end Conduit.Text
