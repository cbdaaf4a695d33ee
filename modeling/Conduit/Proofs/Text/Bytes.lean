/-!
# Texts as bytes

In UTF-8 a character is a first byte, which tells how many more there are, and
its code in digits of base 64, the highest first. So a character of a longer
form has a greater first byte, and among those of one form the first digit in
which they differ decides. Whatever follows, the bytes of two characters stand in
the order of their codes, and the bytes of two texts in the order of the texts.
-/

namespace Conduit.Text

open String (utf8EncodeChar)

/-- The bytes of a text in UTF-8. -/
def bytes (s : String) : List UInt8 := s.toUTF8.data.toList

/-! ## Forms of a character -/

/-- How many bytes a character takes. -/
inductive Form where
  | one | two | three | four

namespace Form

/-- The bytes after the first one. -/
def more : Form → Nat
  | .one => 0
  | .two => 1
  | .three => 2
  | .four => 3

/-- The least first byte. -/
def first : Form → Nat
  | .one => 0
  | .two => 192
  | .three => 224
  | .four => 240

/-- The number of first bytes. -/
def width : Form → Nat
  | .one => 128
  | .two => 32
  | .three => 16
  | .four => 8

/-- The form in which a number is written. -/
def of (v : Nat) : Form :=
  if v ≤ 0x7f then .one else if v ≤ 0x7ff then .two else if v ≤ 0xffff then .three else .four

/-- A number in a form, with `n` digits behind the first byte. -/
def code (f : Form) : Nat → Nat → List UInt8
  | 0, v => [UInt8.ofNat (f.first + v % f.width)]
  | n + 1, v => code f n (v / 64) ++ [UInt8.ofNat (128 + v % 64)]

variable {f g : Form} {m n v w : Nat}

theorem width_pos (f : Form) : 0 < f.width := by
  cases f <;> decide

theorem first_le (f : Form) : f.first + f.width ≤ 256 := by
  cases f <;> decide

/-- The first bytes of a longer form are greater than all of a shorter one. -/
theorem first_add_width_le (h : f.more < g.more) : f.first + f.width ≤ g.first := by
  revert h
  cases f <;> cases g <;> decide

theorem eq_of_more_eq (h : f.more = g.more) : f = g := by
  cases f <;> cases g <;> first | rfl | cases h

theorem more_of_le (h : v ≤ w) : (of v).more ≤ (of w).more := by
  unfold of
  repeat' split
  all_goals first | decide | omega

theorem lt_of_form (h : v < 0x110000) : v < Nat.pow 64 (of v).more * (of v).width := by
  unfold of
  repeat' split
  all_goals simp only [more, width, Nat.pow_eq]; omega

theorem exists_code (f : Form) (n v : Nat) :
    ∃ b rest, f.code n v = b :: rest ∧ f.first ≤ b.toNat ∧ b.toNat < f.first + f.width := by
  induction n generalizing v with
  | zero =>
      have hmod := Nat.mod_lt v f.width_pos
      have hfirst := f.first_le
      refine ⟨_, _, rfl, ?_⟩
      rw [UInt8.toNat_ofNat', Nat.mod_eq_of_lt (by omega)]
      omega
  | succ n ih =>
      obtain ⟨b, rest, hcode, hb⟩ := ih (v / 64)
      exact ⟨b, _, by rw [code, hcode, List.cons_append], hb⟩

/-- A character of a longer form comes later. -/
theorem code_lt_of_more_lt (h : f.more < g.more) (xs ys : List UInt8) :
    f.code m v ++ xs < g.code n w ++ ys := by
  have hforms := first_add_width_le h
  obtain ⟨b, rest, hcode, -, hb⟩ := exists_code f m v
  obtain ⟨b', rest', hcode', hb', -⟩ := exists_code g n w
  rw [hcode, hcode', List.cons_append, List.cons_append]
  exact List.cons_lt_cons_iff.mpr (.inl (UInt8.lt_iff_toNat_lt.mpr (by omega)))

/-- In one form, numbers go by their bytes. -/
theorem code_lt_of_lt (h : v < w) (hw : w < Nat.pow 64 n * f.width) (xs ys : List UInt8) :
    f.code n v ++ xs < f.code n w ++ ys := by
  induction n generalizing v w xs ys with
  | zero =>
      have hfirst := f.first_le
      rw [Nat.pow_eq, Nat.pow_zero, Nat.one_mul] at hw
      have hbyte : ∀ u, u < f.width →
          (UInt8.ofNat (f.first + u % f.width)).toNat = f.first + u := by
        intro u hu
        rw [UInt8.toNat_ofNat', Nat.mod_eq_of_lt hu, Nat.mod_eq_of_lt (by omega)]
      refine List.cons_lt_cons_iff.mpr (.inl (UInt8.lt_iff_toNat_lt.mpr ?_))
      rw [hbyte v (by omega), hbyte w (by omega)]
      omega
  | succ n ih =>
      rw [code, code, List.append_assoc, List.append_assoc]
      rcases Nat.lt_or_ge (v / 64) (w / 64) with hlt | hge
      · refine ih hlt (Nat.div_lt_of_lt_mul ?_) _ _
        have hpow : Nat.pow 64 (n + 1) = 64 * Nat.pow 64 n := Nat.mul_comm _ _
        rwa [hpow, Nat.mul_assoc] at hw
      · -- All digits but the last are the same.
        have hsame : v / 64 = w / 64 := by omega
        rw [hsame]
        refine List.append_left_lt (List.cons_lt_cons_iff.mpr (.inl ?_))
        rw [UInt8.lt_iff_toNat_lt, UInt8.toNat_ofNat', UInt8.toNat_ofNat']
        omega

end Form

/-! ## The order -/

theorem utf8EncodeChar_eq (c : Char) :
    utf8EncodeChar c = (Form.of c.toNat).code (Form.of c.toNat).more c.toNat := by
  have hone : c.toNat ≤ 0x7f → c.toNat % 128 = c.toNat := fun h => Nat.mod_eq_of_lt (by omega)
  show (if c.toNat ≤ 0x7f then _ else if c.toNat ≤ 0x7ff then _ else
    if c.toNat ≤ 0xffff then _ else _) = _
  unfold Form.of
  repeat' split
  all_goals simp [Form.code, Form.more, Form.first, Form.width, Nat.div_div_eq_div_mul,
    Nat.add_comm, *]

theorem toNat_lt (c : Char) : c.toNat < 0x110000 := by
  have hvalid := c.valid
  simp only [UInt32.isValidChar, Nat.isValidChar] at hvalid
  show c.val.toNat < _
  omega

/-- The bytes of a lower character come first, whatever follows. -/
theorem utf8EncodeChar_lt {c d : Char} (h : c < d) (xs ys : List UInt8) :
    utf8EncodeChar c ++ xs < utf8EncodeChar d ++ ys := by
  have hlt : c.toNat < d.toNat := h
  rw [utf8EncodeChar_eq, utf8EncodeChar_eq]
  rcases Nat.lt_or_eq_of_le (Form.more_of_le (Nat.le_of_lt hlt)) with hmore | hmore
  · exact Form.code_lt_of_more_lt hmore xs ys
  · rw [Form.eq_of_more_eq hmore]
    exact Form.code_lt_of_lt hlt (Form.lt_of_form (toNat_lt d)) xs ys

theorem bytes_eq (s : String) : bytes s = s.toList.flatMap utf8EncodeChar := by
  rw [bytes, String.toUTF8_eq_toByteArray, ← String.utf8Encode_toList, List.utf8Encode,
    List.toList_data_toByteArray]

theorem flatMap_utf8EncodeChar_lt {cs ds : List Char} (h : cs < ds) :
    cs.flatMap utf8EncodeChar < ds.flatMap utf8EncodeChar := by
  induction cs generalizing ds with
  | nil =>
      cases ds with
      | nil => cases h
      | cons d ds =>
          obtain ⟨b, rest, hbytes⟩ := List.exists_cons_of_ne_nil (@String.utf8EncodeChar_ne_nil d)
          rw [List.flatMap_cons, hbytes]
          exact List.Lex.nil
  | cons c cs ih =>
      cases ds with
      | nil => cases h
      | cons d ds =>
          rw [List.flatMap_cons, List.flatMap_cons]
          rcases List.cons_lt_cons_iff.mp h with hlt | ⟨rfl, hrest⟩
          · exact utf8EncodeChar_lt hlt _ _
          · exact List.append_left_lt (ih hrest)

theorem bytes_lt {s t : String} (h : s < t) : bytes s < bytes t := by
  rw [bytes_eq, bytes_eq]
  exact flatMap_utf8EncodeChar_lt h

/-- Texts are ordered as their bytes are. -/
theorem compare_bytes (s t : String) :
    compareOfLessAndEq (bytes s) (bytes t) = compareOfLessAndEq s t := by
  unfold compareOfLessAndEq
  by_cases hst : s < t
  · rw [if_pos hst, if_pos (bytes_lt hst)]
  · rw [if_neg hst]
    by_cases heq : s = t
    · subst heq
      rw [if_neg (List.lt_irrefl _), if_pos rfl, if_pos rfl]
    · have hts : t < s := Decidable.byContradiction fun hts =>
        heq (String.le_antisymm (String.not_lt.mp hts) (String.not_lt.mp hst))
      have hbytes := bytes_lt hts
      rw [if_neg (List.lt_asymm hbytes), if_neg heq, if_neg]
      intro hsame
      rw [hsame] at hbytes
      exact List.lt_irrefl _ hbytes

end Conduit.Text
