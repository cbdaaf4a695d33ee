import Conduit.Proofs.Text
import Conduit.Query.Token

/-!
# Scanning the text of a token

The text of a mark, of an integer or of a quoted name is scanned into that
token, and what stands behind it is scanned by itself. Only a numeral looks at
what follows: neither a digit nor a point may. Where a token stands does not
matter to the rules of the grammar, so what is said about a scan is which
lexemes it gives.
-/

namespace Conduit.Query

/-- The lexemes that a text is scanned into, in whatever source it stands. -/
def Scans (cs : List Char) (lexemes : List Lexeme) : Prop :=
  ∀ source fuel offset, cs.length < fuel →
    ∃ toks, scanFrom source fuel cs offset = .ok toks ∧ toks.map Token.lexeme = lexemes

variable {cs : List Char} {ls : List Lexeme} {q : Char}

theorem Scans.nil : Scans [] [] := by
  intro source fuel offset hfuel
  cases fuel with
  | zero => exact ⟨[], rfl, rfl⟩
  | succ fuel => exact ⟨[], rfl, rfl⟩

/-- There is fuel left for what stands behind a token. -/
theorem length_drop_lt {c : Char} {size fuel : Nat} (h : (c :: cs).length < fuel + 1)
    (hsize : size ≠ 0) : ((c :: cs).drop size).length < fuel := by
  rw [List.length_drop]
  simp only [List.length_cons] at h ⊢
  omega

/-- One token off the text. -/
theorem Scans.cons {c : Char} {l : Lexeme} (size : Nat) (hc : Text.isBlank c = false)
    (h : lexeme? (c :: cs) = some (.ok l, size)) (hsize : size ≠ 0)
    (hrest : Scans ((c :: cs).drop size) ls) : Scans (c :: cs) (l :: ls) := by
  intro source fuel offset hfuel
  cases fuel with
  | zero => cases hfuel
  | succ fuel =>
      obtain ⟨toks, htoks, hls⟩ := hrest source fuel (offset + size) (length_drop_lt hfuel hsize)
      refine ⟨⟨l, offset, size⟩ :: toks, ?_, by rw [List.map_cons, hls]⟩
      rw [scanFrom, hc]
      simp only [Bool.false_eq_true, if_false, h]
      rw [htoks]
      rfl

theorem Scans.blank {c : Char} (hc : Text.isBlank c = true) (hcs : Scans cs ls) :
    Scans (c :: cs) ls := by
  intro source fuel offset hfuel
  cases fuel with
  | zero => cases hfuel
  | succ fuel =>
      obtain ⟨toks, htoks, hls⟩ := hcs source fuel (offset + 1) (Nat.lt_of_succ_lt_succ hfuel)
      exact ⟨toks, by rw [scanFrom, if_pos hc, htoks], hls⟩

theorem Scans.spaces (n : Nat) (hcs : Scans cs ls) : Scans (List.replicate n ' ' ++ cs) ls := by
  induction n with
  | zero => exact hcs
  | succ n ih => exact .blank (by decide) ih

/-! ## Marks -/

/-- No mark begins with such a character. -/
theorem mark?_eq_none {c : Char} (h : c ∉ "$@.[]*,:?()=!<>&|".toList) : mark? (c :: cs) = none := by
  have hmark : ∀ m : Mark, ∃ first rest, m.text.toList = first :: rest ∧
      first ∈ "$@.[]*,:?()=!<>&|".toList := by
    intro m
    cases m <;> exact ⟨_, _, rfl, by decide⟩
  rw [mark?, List.find?_eq_none]
  intro m _ hstart
  obtain ⟨first, rest, htext, hfirst⟩ := hmark m
  rw [htext, List.isPrefixOf_cons_cons, Bool.and_eq_true, beq_iff_eq] at hstart
  exact h (hstart.1 ▸ hfirst)

/-- The text of a mark is scanned as the mark. -/
theorem exists_lexeme?_mark {m : Mark} (h : mark? (m.text.toList ++ cs) = some m) :
    ∃ c rest size, m.text.toList ++ cs = c :: rest ∧ Text.isBlank c = false ∧ size ≠ 0 ∧
      (c :: rest).drop size = cs ∧ lexeme? (c :: rest) = some (.ok (.mark m), size) := by
  obtain ⟨c, rest, htext, hc⟩ : ∃ c rest, m.text.toList = c :: rest ∧ Text.isBlank c = false := by
    cases m <;> exact ⟨_, _, rfl, by decide⟩
  have hlength : m.text.length = rest.length + 1 := by
    rw [← String.length_toList, htext, List.length_cons]
  rw [htext, List.cons_append] at h ⊢
  refine ⟨c, rest ++ cs, m.text.length, rfl, hc, by omega, ?_, by rw [lexeme?, h]⟩
  rw [hlength, List.drop_succ_cons, List.drop_left]

theorem Scans.mark {m : Mark} (h : mark? (m.text.toList ++ cs) = some m) (hcs : Scans cs ls) :
    Scans (m.text.toList ++ cs) (.mark m :: ls) := by
  obtain ⟨c, rest, size, htext, hblank, hsize, hdrop, hlexeme⟩ := exists_lexeme?_mark h
  rw [htext]
  exact .cons size hblank hlexeme hsize (hdrop.symm ▸ hcs)

/-! ## Quoted names -/

theorem stringBody?_protected {c : Char} (h : c ≠ '\n') :
    stringBody? q ('\\' :: c :: cs) = (stringBody? q cs).map ('\\' :: c :: ·) := by
  rw [stringBody?, if_neg h]

theorem stringBody?_cons {c : Char} (h : c ≠ '\\') (hq : c ≠ q) :
    stringBody? q (c :: cs) = (stringBody? q cs).map (c :: ·) := by
  rw [stringBody?, if_neg hq, if_neg h]
  rintro d rest rfl
  exact absurd rfl h

theorem stringBody?_close (h : q ≠ '\\') : stringBody? q (q :: cs) = some [] := by
  rw [stringBody?, if_pos rfl]
  rintro d rest rfl
  exact absurd rfl h

theorem stringBody?_escape (hq : q ≠ '\\') (hn : q ≠ '\n') (name : List Char) :
    stringBody? q (Text.escape q name ++ q :: cs) = some (Text.escape q name) := by
  induction name with
  | nil => exact stringBody?_close hq
  | cons c rest ih =>
      rw [Text.escape_cons]
      split
      · next h =>
          have hc : c ≠ '\n' := by
            rintro rfl
            exact h.elim (by decide) (Ne.symm hn)
          refine (stringBody?_protected hc).trans ?_
          show (stringBody? q (Text.escape q rest ++ q :: cs)).map _ = _
          rw [ih]
          rfl
      · next h =>
          obtain ⟨hslash, hquote⟩ := not_or.mp h
          refine (stringBody?_cons hslash hquote).trans ?_
          show (stringBody? q (Text.escape q rest ++ q :: cs)).map _ = _
          rw [ih]
          rfl

theorem word?_quote (hq : q = '\'' ∨ q = '"') : word? (q :: cs) =
    (stringBody? q cs).map fun body =>
      (.string (String.ofList (Text.unescape body)), body.length + 2) := by
  rw [word?, if_pos hq.symm]

theorem number?_quote (hq : q = '\'' ∨ q = '"') : number? (q :: cs) = none := by
  rcases hq with rfl | rfl <;> rfl

theorem mark?_quote (hq : q = '\'' ∨ q = '"') : mark? (q :: cs) = none := by
  refine mark?_eq_none ?_
  rcases hq with rfl | rfl <;> decide

theorem Scans.quoted (name : String) (hcs : Scans cs ls) :
    Scans ('\'' :: (Text.escape '\'' name.toList ++ '\'' :: cs)) (.string name :: ls) := by
  refine .cons ((Text.escape '\'' name.toList).length + 2) (by decide) ?_ (by omega) ?_
  · rw [lexeme?, mark?_quote (.inl rfl)]
    dsimp only
    rw [number?_quote (.inl rfl)]
    dsimp only
    rw [word?_quote (.inl rfl), stringBody?_escape (by decide) (by decide), Option.map_some,
      Text.unescape_escape (by decide), String.ofList_toList]
    rfl
  · rw [List.drop_succ_cons, show Text.escape '\'' name.toList ++ '\'' :: cs =
      (Text.escape '\'' name.toList ++ ['\'']) ++ cs by simp]
    rw [List.drop_left']
    · exact hcs
    · simp

/-! ## Names -/

theorem isNameStart_bounds {c : Char} (h : isNameStart c = true) :
    58 ≤ c.toNat ∧ c.toNat < 133 := by
  simp only [isNameStart, Bool.or_eq_true, Bool.and_eq_true, decide_eq_true_eq, Char.le_def,
    UInt32.le_iff_toNat_le] at h
  rcases h with (⟨hlow, hhigh⟩ | ⟨hlow, hhigh⟩) | rfl
  · have hlow : 65 ≤ c.toNat := hlow
    have hhigh : c.toNat ≤ 90 := hhigh
    omega
  · have hlow : 97 ≤ c.toNat := hlow
    have hhigh : c.toNat ≤ 122 := hhigh
    omega
  · decide

theorem Scans.name {c : Char} {rest : List Char} (hc : isNameStart c = true)
    (hrest : rest.all isNameChar = true) (hend : Text.Stops isNameChar cs)
    (hcs : Scans cs ls) : Scans (c :: rest ++ cs) (.name (String.ofList (c :: rest)) :: ls) := by
  obtain ⟨hlow, hhigh⟩ := isNameStart_bounds hc
  have hblank : Text.isBlank c = false := Text.isBlank_eq_false (by omega) hhigh
  have hdigit : Text.isDigit c = false := Text.isDigit_eq_false hlow (by omega)
  have hmark : c ∉ "$@.[]*,:?()=!<>&|".toList := by
    intro hmem
    have hnone : "$@.[]*,:?()=!<>&|".toList.all (fun d => !isNameStart d) = true := by decide
    have hnot := List.all_eq_true.mp hnone c hmem
    rw [hc] at hnot
    cases hnot
  have hquote : ¬(c = '"' ∨ c = '\'') := by
    rintro (rfl | rfl) <;> exact absurd hc (by decide)
  have hnumber : number? (c :: (rest ++ cs)) = none := by
    unfold number?
    split
    next minus body hsplit =>
    split at hsplit
    · next heq =>
        rw [(List.cons.inj heq).1] at hc
        exact absurd hc (by decide)
    · cases hsplit
      simp [hdigit]
  rw [List.cons_append]
  refine .cons (rest.length + 1) hblank ?_ (by omega) ?_
  · rw [lexeme?, mark?_eq_none hmark]
    dsimp only
    rw [hnumber]
    dsimp only
    rw [word?, if_neg hquote, if_pos hc,
      Text.takeWhile_append (List.all_eq_true.mp hrest) hend]
    rfl
  · rw [List.drop_succ_cons, List.drop_left]
    exact hcs

/-! ## Numerals -/

/-- What may stand behind an integer. -/
def EndsInteger (cs : List Char) : Prop := Text.Stops (fun c => Text.isDigit c || c = '.') cs

theorem number?_digits (negative : Bool) {digits : List Char}
    (h : ∀ c ∈ digits, Text.isDigit c = true) (hne : digits ≠ []) (hcs : EndsInteger cs) :
    number? (Text.sign negative ++ (digits ++ cs)) = some
      ((if Limit.numeralDigits < digits.length then .error (.longNumeral digits.length)
        else .ok (.int (if negative = true then -(Text.digitsValue digits : Int)
          else Text.digitsValue digits))),
        (Text.sign negative).length + digits.length) := by
  have htake : (digits ++ cs).takeWhile Text.isDigit = digits := by
    refine Text.takeWhile_append h fun c hc => ?_
    exact (Bool.or_eq_false_iff.mp (hcs c hc)).1
  have hfraction : fractionDigits cs = [] := by
    unfold fractionDigits
    split
    · next rest =>
        have hpoint := hcs '.' rfl
        simp at hpoint
    · rfl
  have hempty : digits.isEmpty = false := by simpa using hne
  unfold number?
  split
  next minus body hsplit =>
  obtain ⟨rfl, rfl⟩ : minus = negative ∧ body = digits ++ cs := by
    cases negative with
    | true =>
        cases hsplit
        exact ⟨rfl, rfl⟩
    | false =>
        split at hsplit
        · next heq =>
            obtain ⟨c, rest, rfl⟩ := List.exists_cons_of_ne_nil hne
            have hc := h c List.mem_cons_self
            rw [(List.cons.inj heq).1] at hc
            exact absurd hc (by decide)
        · cases hsplit
          exact ⟨rfl, rfl⟩
  dsimp only
  rw [htake, List.drop_left, hfraction, hempty]
  cases minus <;> simp [Text.sign]

/-- An integer is one token, if it is short enough. -/
theorem lexeme?_integer (i : Int) (hend : EndsInteger cs) :
    ∃ c rest size, (toString i).toList ++ cs = c :: rest ∧ Text.isBlank c = false ∧
      size ≠ 0 ∧ (c :: rest).drop size = cs ∧ lexeme? (c :: rest) = some
        ((if Limit.numeralDigits < (Nat.toDigits 10 i.natAbs).length then
            .error (.longNumeral (Nat.toDigits 10 i.natAbs).length)
          else .ok (.number (.int i))), size) := by
  have hdigit : ∀ c ∈ Nat.toDigits 10 i.natAbs, Text.isDigit c = true :=
    fun _ hc => Text.isDigit_of_mem_toDigits hc
  have hnumber := number?_digits (decide (i < 0)) hdigit Nat.toDigits_ne_nil hend
  rw [Text.signed_digitsValue] at hnumber
  obtain ⟨c, rest, hc, htext⟩ : ∃ c rest, (c = '-' ∨ Text.isDigit c = true) ∧
      Text.sign (decide (i < 0)) ++ (Nat.toDigits 10 i.natAbs ++ cs) = c :: rest := by
    obtain ⟨d, more, hd⟩ :=
      List.exists_cons_of_ne_nil (Nat.toDigits_ne_nil (n := i.natAbs) (b := 10))
    cases decide (i < 0) with
    | true => exact ⟨'-', _, .inl rfl, rfl⟩
    | false => exact ⟨d, more ++ cs, .inr (hdigit d (hd ▸ List.mem_cons_self)), by rw [hd]; rfl⟩
  have hfirst : Text.isBlank c = false ∧ mark? (c :: rest) = none := by
    rcases hc with rfl | hc
    · exact ⟨by decide, mark?_eq_none (by decide)⟩
    · refine ⟨Text.isBlank_of_isDigit hc, mark?_eq_none fun hmem => ?_⟩
      have hnone : "$@.[]*,:?()=!<>&|".toList.any Text.isDigit = false := by decide
      exact Bool.false_ne_true (hnone.symm.trans (List.any_eq_true.mpr ⟨c, hmem, hc⟩))
  have hsize : ((Text.sign (decide (i < 0))).length + (Nat.toDigits 10 i.natAbs).length) =
      (Text.sign (decide (i < 0)) ++ Nat.toDigits 10 i.natAbs).length := List.length_append.symm
  rw [htext] at hnumber
  refine ⟨c, rest, (Text.sign (decide (i < 0))).length + (Nat.toDigits 10 i.natAbs).length, ?_,
    hfirst.1, ?_, ?_, ?_⟩
  · rw [Text.toList_toString, List.append_assoc]
    exact htext
  · have := List.length_pos_iff.mpr (Nat.toDigits_ne_nil (n := i.natAbs) (b := 10))
    exact Nat.ne_of_gt (Nat.add_pos_right (Text.sign (decide (i < 0))).length this)
  · rw [← htext, hsize, ← List.append_assoc, List.drop_left]
  · rw [lexeme?, hfirst.2]
    dsimp only
    rw [hnumber]
    by_cases hlong : Limit.numeralDigits < (Nat.toDigits 10 i.natAbs).length
    · rw [if_pos hlong, if_pos hlong]
      rfl
    · rw [if_neg hlong, if_neg hlong]
      rfl

theorem Scans.integer {i : Int} (h : Text.IsShort i) (hend : EndsInteger cs) (hcs : Scans cs ls) :
    Scans ((toString i).toList ++ cs) (.number (.int i) :: ls) := by
  obtain ⟨c, rest, size, htext, hblank, hsize, hdrop, hlexeme⟩ := lexeme?_integer i hend
  rw [if_neg (Nat.not_lt.mpr ((Text.isShort_iff i).mp h))] at hlexeme
  rw [htext]
  exact .cons size hblank hlexeme hsize (hdrop.symm ▸ hcs)

/-! ## Numerals that are too long -/

/-- The scan of the text stops at a limit, in whatever source it stands. -/
def Overruns (cs : List Char) (l : Limit) : Prop :=
  ∀ source fuel offset, cs.length < fuel → scanFrom source fuel cs offset = .error (.limit l)

theorem Overruns.blank {c : Char} {l : Limit} (hc : Text.isBlank c = true) (hcs : Overruns cs l) :
    Overruns (c :: cs) l := by
  intro source fuel offset hfuel
  cases fuel with
  | zero => cases hfuel
  | succ fuel =>
      rw [scanFrom, if_pos hc]
      exact hcs source fuel (offset + 1) (Nat.lt_of_succ_lt_succ hfuel)

theorem Overruns.cons {c : Char} {t : Lexeme} {l : Limit} (size : Nat)
    (hc : Text.isBlank c = false) (h : lexeme? (c :: cs) = some (.ok t, size)) (hsize : size ≠ 0)
    (hrest : Overruns ((c :: cs).drop size) l) : Overruns (c :: cs) l := by
  intro source fuel offset hfuel
  cases fuel with
  | zero => cases hfuel
  | succ fuel =>
      rw [scanFrom, hc]
      simp only [Bool.false_eq_true, if_false, h]
      rw [hrest source fuel (offset + size) (length_drop_lt hfuel hsize)]
      rfl

theorem Overruns.first {c : Char} {l : Limit} {size : Nat} (hc : Text.isBlank c = false)
    (h : lexeme? (c :: cs) = some (.error l, size)) : Overruns (c :: cs) l := by
  intro source fuel offset hfuel
  cases fuel with
  | zero => cases hfuel
  | succ fuel =>
      rw [scanFrom, hc]
      simp only [Bool.false_eq_true, if_false, h]

theorem Overruns.mark {m : Mark} {l : Limit} (h : mark? (m.text.toList ++ cs) = some m)
    (hcs : Overruns cs l) : Overruns (m.text.toList ++ cs) l := by
  obtain ⟨c, rest, size, htext, hblank, hsize, hdrop, hlexeme⟩ := exists_lexeme?_mark h
  rw [htext]
  exact .cons size hblank hlexeme hsize (hdrop.symm ▸ hcs)

theorem Overruns.integer {i : Int} (h : ¬Text.IsShort i) (hend : EndsInteger cs) :
    Overruns ((toString i).toList ++ cs) (.longNumeral (Nat.toDigits 10 i.natAbs).length) := by
  obtain ⟨c, rest, size, htext, hblank, _, _, hlexeme⟩ := lexeme?_integer i hend
  rw [if_pos (Nat.not_le.mp fun hle => h ((Text.isShort_iff i).mpr hle))] at hlexeme
  rw [htext]
  exact .first hblank hlexeme

end Conduit.Query
