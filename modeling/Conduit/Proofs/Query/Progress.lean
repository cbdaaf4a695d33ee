import Conduit.Proofs.Query.Failure

/-!
# The reader of queries goes forward

The scanner stops at a character that begins no token, at an integer of too many
digits, or at the end of the text, which the tokens and the blanks between them then
cover without a gap. Every rule of the grammar takes tokens off the front of those that
are left and gives back the others. A rule that reads something takes at least one
token, a loop at least one in each round, and a rule that fails does so at one of the
tokens that were left to it or at the end of input. So nothing is read behind that end,
and no rule calls itself or goes round without getting nearer to it.
-/

namespace Conduit.Query

variable {source message : String} {toks later rest : List Token} {m n offset : Nat}

/-! ## Tokens in a text -/

/-- Tokens that stand, one behind the other, in a text that begins at `offset`. What is
between them is blank. -/
inductive Tiles : Nat → List Char → List Token → Prop where
  | nil (offset : Nat) : Tiles offset [] []
  | blank {offset : Nat} {c : Char} {cs : List Char} {toks : List Token}
      (hc : Text.isBlank c = true) (h : Tiles (offset + 1) cs toks) : Tiles offset (c :: cs) toks
  | token {offset : Nat} {span cs : List Char} {l : Lexeme} {toks : List Token}
      (hspan : span ≠ []) (hl : lexeme? (span ++ cs) = some (.ok l, span.length))
      (h : Tiles (offset + span.length) cs toks) :
      Tiles offset (span ++ cs) (⟨l, offset, span.length⟩ :: toks)

theorem Tiles.take {cs : List Char} {l : Lexeme} {size : Nat}
    (hl : lexeme? cs = some (.ok l, size)) (h : Tiles (offset + size) (cs.drop size) toks) :
    Tiles offset cs (⟨l, offset, size⟩ :: toks) := by
  have hsize : (cs.take size).length = size := List.length_take_of_le (size_le_length hl)
  have hspan : cs.take size ≠ [] := by
    rw [← List.length_pos_iff, hsize]
    exact Nat.pos_of_ne_zero (size_ne_zero hl)
  have htiles : Tiles offset (cs.take size ++ cs.drop size)
      (⟨l, offset, (cs.take size).length⟩ :: toks) := by
    refine .token hspan ?_ (by rwa [hsize])
    rw [List.take_append_drop, hsize, hl]
  rwa [List.take_append_drop, hsize] at htiles

theorem Tiles.increasing {cs : List Char} (h : Tiles offset cs toks) :
    (toks.map Token.offset ++ [offset + cs.length]).Pairwise (· < ·) := by
  -- None of the places lies before the text.
  suffices hplaces : (toks.map Token.offset ++ [offset + cs.length]).Pairwise (· < ·) ∧
      ∀ place ∈ toks.map Token.offset ++ [offset + cs.length], offset ≤ place from hplaces.1
  induction h with
  | nil offset => exact ⟨List.pairwise_singleton _ _, by simp⟩
  | @blank offset c cs toks _ _ ih =>
      obtain ⟨hpairs, hleast⟩ := ih
      rw [List.length_cons, Nat.add_comm cs.length, ← Nat.add_assoc]
      exact ⟨hpairs, fun place hplace => Nat.le_of_succ_le (hleast place hplace)⟩
  | @token offset span cs l toks hspan _ _ ih =>
      obtain ⟨hpairs, hleast⟩ := ih
      have hpos : 0 < span.length := List.length_pos_iff.mpr hspan
      have hbehind : ∀ place ∈ toks.map Token.offset ++ [offset + span.length + cs.length],
          offset < place :=
        fun place hplace => Nat.lt_of_lt_of_le (Nat.lt_add_of_pos_right hpos) (hleast place hplace)
      rw [List.length_append, ← Nat.add_assoc, List.map_cons, List.cons_append,
        List.pairwise_cons, List.forall_mem_cons]
      exact ⟨⟨hbehind, hpairs⟩, Nat.le_refl _, fun place hplace =>
        Nat.le_of_lt (hbehind place hplace)⟩

/-- What a scan can fail at: a character of the source that is not blank and begins no
token, or an integer of too many digits. -/
inductive IsScanError (source : String) : Error → Prop where
  | badCharacter {c : Char} {offset : Nat} (hat : source.toList[offset]? = some c)
      (hc : Text.isBlank c = false) (hl : lexeme? (source.toList.drop offset) = none) :
      IsScanError source (.badCharacter c source offset)
  | longNumeral {offset digits size : Nat} (hlong : Limit.numeralDigits < digits)
      (hl : lexeme? (source.toList.drop offset) = some (.error (.longNumeral digits), size)) :
      IsScanError source (.limit (.longNumeral digits))

/-- How the scan of a text that begins at `offset` of the source ends. -/
def ScanEnds (source : String) (offset : Nat) (cs : List Char) :
    Except Error (List Token) → Prop
  | .ok toks => Tiles offset cs toks
  | .error e => IsScanError source e

theorem scanFrom_ends {fuel : Nat} {cs : List Char} (hfuel : cs.length < fuel)
    (hcs : source.toList.drop offset = cs) :
    ScanEnds source offset cs (scanFrom source fuel cs offset) := by
  -- With more fuel than text the scan gets to the end, since every token takes a character.
  induction fuel generalizing cs offset with
  | zero => cases hfuel
  | succ fuel ih =>
      cases cs with
      | nil => exact .nil offset
      | cons c rest =>
          have hdrop (size : Nat) : source.toList.drop (offset + size) = (c :: rest).drop size := by
            rw [← hcs, List.drop_drop]
          rw [scanFrom]
          split
          · next hc =>
              have hrest := ih (Nat.lt_of_succ_lt_succ hfuel) (hdrop 1)
              cases hscan : scanFrom source fuel rest (offset + 1) <;> rw [hscan] at hrest
              · exact hrest
              · exact .blank hc hrest
          · next hc =>
              split
              · next hl =>
                  refine .badCharacter ?_ (by simpa using hc) (by rw [hcs]; exact hl)
                  rw [← Nat.add_zero offset, ← List.getElem?_drop, hcs]
                  rfl
              · next l size hl =>
                  obtain ⟨hlong, -, rfl⟩ := lexeme?_error_iff.mp ⟨size, hl⟩
                  exact .longNumeral hlong (by rw [hcs]; exact hl)
              · next l size hl =>
                  have hrest := ih (length_drop_lt hfuel (size_ne_zero hl)) (hdrop size)
                  cases hscan : scanFrom source fuel ((c :: rest).drop size) (offset + size) <;>
                    rw [hscan] at hrest
                  · exact hrest
                  · exact .take hl hrest

/-! ## Tokens that are taken -/

/-- At least `n` tokens off the front of `toks` leave `rest`. -/
def Ahead (n : Nat) (toks rest : List Token) : Prop :=
  ∃ taken, toks = taken ++ rest ∧ n ≤ taken.length

namespace Ahead

theorem refl : Ahead 0 toks toks := ⟨[], rfl, Nat.le_refl _⟩

theorem cons {t : Token} (h : Ahead n toks rest) : Ahead (n + 1) (t :: toks) rest := by
  obtain ⟨taken, rfl, hn⟩ := h
  exact ⟨t :: taken, rfl, Nat.succ_le_succ hn⟩

theorem trans (h : Ahead m toks later) (h' : Ahead n later rest) : Ahead (m + n) toks rest := by
  obtain ⟨taken, rfl, hm⟩ := h
  obtain ⟨more, rfl, hn⟩ := h'
  refine ⟨taken ++ more, (List.append_assoc _ _ _).symm, ?_⟩
  rw [List.length_append]
  exact Nat.add_le_add hm hn

theorem mono (h : Ahead n toks rest) (hmn : m ≤ n) : Ahead m toks rest := by
  obtain ⟨taken, htoks, hn⟩ := h
  exact ⟨taken, htoks, Nat.le_trans hmn hn⟩

theorem mem {t : Token} (h : Ahead n toks rest) (ht : t ∈ rest) : t ∈ toks := by
  obtain ⟨taken, rfl, -⟩ := h
  exact List.mem_append_right _ ht

end Ahead

/-- How a rule that begins at `toks` can fail: at one of these tokens, at the end of input,
or with a path in a filter that has no text or is not what its text is read into. -/
inductive FailsIn (source : String) (toks : List Token) : Error → Prop where
  | token (message : String) {t : Token} (h : t ∈ toks) :
      FailsIn source toks (.unexpected message source t.offset t.lexeme.display)
  | endOfInput (message : String) :
      FailsIn source toks (.unexpected message source source.length "end of input")
  | filterPath (e : PathError) : FailsIn source toks (.filterPath e)
  | limit (l : Limit) : FailsIn source toks (.limit l)

theorem FailsIn.earlier {e : Error} (h : FailsIn source later e) (hlater : Ahead n toks later) :
    FailsIn source toks e := by
  cases h with
  | token message ht => exact .token message (hlater.mem ht)
  | endOfInput message => exact .endOfInput message
  | filterPath e => exact .filterPath e
  | limit l => exact .limit l

/-- A rule that begins at `toks` fails there or behind, or it reads something, and then
takes as many tokens as it has to. -/
inductive Advances {α : Type} (source : String) (toks : List Token) (least : α → Nat)
    (rest : α → List Token) : Except Error α → Prop where
  | ok {a : α} (h : Ahead (least a) toks (rest a)) : Advances source toks least rest (.ok a)
  | error {e : Error} (h : FailsIn source toks e) : Advances source toks least rest (.error e)

namespace Advances

variable {α β : Type} {least : α → Nat} {rest : α → List Token} {least' : β → Nat}
  {rest' : β → List Token}

theorem fail (h : Ahead n toks later) :
    Advances source toks least rest (Query.fail source message later) := by
  cases later with
  | nil => exact .error (.endOfInput message)
  | cons t _ => exact .error (.token message (h.mem List.mem_cons_self))

theorem earlier {r : Except Error α} (h : Ahead n toks later)
    (hr : Advances source later least rest r) : Advances source toks least rest r := by
  cases hr with
  | ok ha => exact .ok ((h.trans ha).mono (Nat.le_add_left _ _))
  | error he => exact .error (he.earlier h)

theorem bind {x : Except Error α} {f : α → Except Error β} (h : Ahead n toks later)
    (hx : Advances source later least rest x)
    (hf : ∀ a, Ahead (n + least a) toks (rest a) → Advances source toks least' rest' (f a)) :
    Advances source toks least' rest' (x >>= f) := by
  cases hx with
  | ok ha => exact hf _ (h.trans ha)
  | error he => exact .error (he.earlier h)

end Advances

section Rules

variable {α P : Type} {before : List Token}

/-- A rule takes a token, or more. -/
abbrev Takes (source : String) (toks : List Token) (r : Except Error (Parsed α before)) : Prop :=
  Advances source toks (fun _ => 1) Parsed.rest r

/-- A rule that may read nothing. -/
abbrev Tries {Q : List Token → Prop} (source : String) (toks : List Token)
    (r : Except Error (α × Subtype Q)) : Prop :=
  Advances source toks (fun _ => 0) (fun p => p.2.1) r

/-- A loop takes a token, or more, for each item that it reads. -/
abbrev Loops {Q : List Token → Prop} (source : String) (toks : List Token)
    (r : Except Error (List α × Subtype Q)) : Prop :=
  Advances source toks (fun p => p.1.length) (fun p => p.2.1) r

theorem expect_takes (mark : Mark) (what : String) (toks : List Token) :
    Takes source toks (expect source mark what toks) := by
  unfold expect
  split
  · split
    · exact .ok Ahead.refl.cons
    · exact .fail .refl
  · exact .fail .refl

theorem member_takes (toks : List Token) : Takes source toks (member (P := P) source toks) := by
  unfold member
  split
  · exact .ok Ahead.refl.cons
  · exact .ok Ahead.refl.cons
  · exact .ok Ahead.refl.cons
  · exact .fail .refl

/-! ## Selectors -/

theorem integer?_tries (toks : List Token) : Tries source toks (integer? source toks) := by
  unfold integer?
  split
  · exact .ok (Ahead.refl.cons.mono (Nat.zero_le _))
  · exact .fail Ahead.refl.cons
  · exact .ok .refl

theorem sliceStep_tries (toks : List Token) : Tries source toks (sliceStep source toks) := by
  unfold sliceStep
  split
  · refine .bind Ahead.refl.cons (integer?_tries _) fun p hp => ?_
    dsimp only
    split
    · exact .fail hp
    · exact .ok (hp.mono (Nat.zero_le _))
  · exact .ok .refl

theorem sliceFrom_takes (start : Option Int) (toks : List Token) :
    Takes source toks (sliceFrom source start toks) := by
  unfold sliceFrom
  split
  · refine .bind Ahead.refl.cons (integer?_tries _) fun stop hstop => ?_
    exact .bind hstop (sliceStep_tries _) fun step hstep => .ok hstep
  · exact .fail .refl

theorem selector_takes (toks : List Token) :
    Takes source toks (selector (P := P) source toks) := by
  unfold selector
  split
  · exact .ok Ahead.refl.cons
  · exact .bind Ahead.refl.cons (sliceFrom_takes _ _) fun p hp => .ok (hp.mono (Nat.le_succ 1))
  · exact .ok Ahead.refl.cons
  · exact .fail Ahead.refl.cons
  · exact .bind .refl (sliceFrom_takes _ _) fun p hp => .ok hp

theorem moreSelectors_loops (toks : List Token) :
    Loops source toks (moreSelectors (P := P) source toks) := by
  fun_induction moreSelectors (P := P) source toks with
  | case1 offset size rest ih =>
      refine .bind Ahead.refl.cons (selector_takes rest) fun first hfirst => ?_
      refine .bind hfirst (ih first) fun more hmore => .ok (hmore.mono ?_)
      rw [List.length_cons]
      omega
  | case2 other hother => exact .ok .refl

theorem selectors_takes (toks : List Token) :
    Takes source toks (selectors (P := P) source toks) := by
  refine .bind .refl (selector_takes toks) fun first hfirst => ?_
  exact .bind hfirst (moreSelectors_loops _) fun more hmore => .ok (hmore.mono (by omega))

/-! ## Paths inside filters -/

theorem pathBracket_takes (toks : List Token) : Takes source toks (pathBracket source toks) := by
  unfold pathBracket
  split
  · exact .ok Ahead.refl.cons
  · exact .ok Ahead.refl.cons
  · exact .fail Ahead.refl.cons
  · exact .fail .refl

/-- A step takes a token; where there is none, nothing is taken. -/
theorem pathStep_takes (toks : List Token) :
    Advances source toks (fun s => if s.isSome then 1 else 0)
      (fun s => (s.map Parsed.rest).getD toks) (pathStep source toks) := by
  unfold pathStep
  split
  · refine .bind Ahead.refl.cons (member_takes _) fun m hm => ?_
    split
    · exact .ok (hm.mono (Nat.le_succ 1))
    · exact .fail hm
  · refine .bind Ahead.refl.cons (pathBracket_takes _) fun key hkey => ?_
    exact .bind hkey (expect_takes _ _ _) fun close hclose =>
      .ok (hclose.mono (Nat.le_add_left 1 _))
  · exact .ok .refl

theorem pathSteps_loops (toks : List Token) : Loops source toks (pathSteps source toks) := by
  fun_induction pathSteps source toks with
  | case1 toks ih =>
      refine .bind .refl (pathStep_takes toks) fun step hstep => ?_
      cases step with
      | none => exact .ok .refl
      | some s =>
          refine .bind hstep (ih s) fun more hmore => .ok (hmore.mono ?_)
          show more.1.length + 1 ≤ 0 + 1 + more.1.length
          omega

theorem filterPath_fails_in {e : Error} {steps : List Step} (h : filterPath steps = .error e) :
    FailsIn source toks e := by
  unfold filterPath at h
  split at h
  · cases h
    exact .limit _
  · split at h
    · cases h
    · cases h
      exact .filterPath _

theorem relativePath_tries (atCandidate : Bool) (toks : List Token) :
    Tries source toks (relativePath source atCandidate toks) := by
  rw [relativePath]
  refine .bind .refl (pathSteps_loops toks) fun p hp => ?_
  dsimp only
  split
  · cases hpath : filterPath _ with
    | error e => exact .error (filterPath_fails_in hpath)
    | ok path => exact .ok (hp.mono (Nat.zero_le _))
  · exact .fail hp

/-! ## Conditions -/

theorem plainOperand_takes (toks : List Token) :
    Takes source toks (plainOperand source toks) := by
  unfold plainOperand
  split
  · exact .ok Ahead.refl.cons
  · exact .ok Ahead.refl.cons
  · split
    · exact .ok Ahead.refl.cons
    · exact .fail .refl
  · exact .bind Ahead.refl.cons (relativePath_tries _ _) fun p hp => .ok hp
  · exact .bind Ahead.refl.cons (relativePath_tries _ _) fun p hp => .ok hp
  · exact .fail .refl

/-- The induction is on the calls of the rules: each begins at tokens that were left to
the rule it is a part of. -/
theorem rules_advance (source : String) :
    (∀ toks, Takes source toks (orFilter source toks)) ∧
    (∀ toks, Loops source toks (moreOr source toks)) ∧
    (∀ toks, Takes source toks (andFilter source toks)) ∧
    (∀ toks, Loops source toks (moreAnd source toks)) ∧
    (∀ toks, Takes source toks (unary source toks)) ∧
    (∀ toks, Takes source toks (comparison source toks)) ∧
    ∀ toks, Takes source toks (operand source toks) := by
  apply orFilter.mutual_induct
  case case1 =>
    intro toks hfirst hmore
    rw [orFilter]
    refine .bind .refl hfirst fun first h => ?_
    exact .bind h (hmore first) fun more hm => .ok (hm.mono (by omega))
  case case2 =>
    intro offset size rest hfirst hmore
    rw [moreOr]
    refine .bind Ahead.refl.cons hfirst fun first h => ?_
    refine .bind h (hmore first) fun more hm => .ok (hm.mono ?_)
    rw [List.length_cons]
    omega
  case case3 =>
    intro other hother
    rw [moreOr.eq_def]
    split
    · next offset size rest => exact absurd rfl (hother offset size rest)
    · exact .ok .refl
  case case4 =>
    intro toks hfirst hmore
    rw [andFilter]
    refine .bind .refl hfirst fun first h => ?_
    exact .bind h (hmore first) fun more hm => .ok (hm.mono (by omega))
  case case5 =>
    intro offset size rest hfirst hmore
    rw [moreAnd]
    refine .bind Ahead.refl.cons hfirst fun first h => ?_
    refine .bind h (hmore first) fun more hm => .ok (hm.mono ?_)
    rw [List.length_cons]
    omega
  case case6 =>
    intro other hother
    rw [moreAnd.eq_def]
    split
    · next offset size rest => exact absurd rfl (hother offset size rest)
    · exact .ok .refl
  case case7 =>
    intro offset size rest hoperand
    rw [unary]
    exact .bind Ahead.refl.cons hoperand fun operand h => .ok (h.mono (Nat.le_succ 1))
  case case8 =>
    intro other hother hcomparison
    rw [unary.eq_def]
    split
    · next offset size rest => exact absurd rfl (hother offset size rest)
    · exact hcomparison
  case case9 =>
    intro toks hleft hright
    rw [comparison]
    refine .bind .refl hleft fun left h => ?_
    split
    · next m offset size rest heq =>
      split
      · rw [heq] at h
        refine .bind (h.trans Ahead.refl.cons) (hright left m offset size rest heq)
          fun right hr => .ok (hr.mono (by omega))
      · exact .ok h
    · exact .ok h
  case case10 =>
    intro offset size rest hinner
    rw [operand]
    refine .bind Ahead.refl.cons hinner fun inner h => ?_
    exact .bind h (expect_takes _ _ _) fun close hclose => .ok (hclose.mono (by omega))
  case case11 =>
    intro other hother
    rw [operand.eq_def]
    split
    · next offset size rest => exact absurd rfl (hother offset size rest)
    · exact plainOperand_takes _

/-! ## Segments -/

theorem contents_takes (toks : List Token) : Takes source toks (contents source toks) := by
  unfold contents
  split
  · exact .ok Ahead.refl.cons
  · refine .bind Ahead.refl.cons (expect_takes _ _ _) fun opening h => ?_
    refine .bind h ((rules_advance source).1 _) fun condition h => ?_
    exact .bind h (expect_takes _ _ _) fun close h => .ok (h.mono (by omega))
  · exact selectors_takes _

theorem bracket_takes (toks : List Token) : Takes source toks (bracket source toks) := by
  refine .bind .refl (contents_takes toks) fun contents h => ?_
  exact .bind h (expect_takes _ _ _) fun close h => .ok (h.mono (by omega))

theorem segment_takes (toks : List Token) : Takes source toks (segment source toks) := by
  unfold segment
  split
  · exact .bind Ahead.refl.cons (member_takes _) fun p h => .ok (h.mono (by omega))
  · exact .bind Ahead.refl.cons.cons (bracket_takes _) fun p h => .ok (h.mono (by omega))
  · exact .bind Ahead.refl.cons (member_takes _) fun p h => .ok (h.mono (by omega))
  · exact .bind Ahead.refl.cons (bracket_takes _) fun p h => .ok (h.mono (by omega))
  · exact .fail .refl

/-- All the tokens that are left are taken, at least one for each segment. -/
theorem segments_advance (toks : List Token) :
    Advances source toks List.length (fun _ => []) (segments source toks) := by
  fun_induction segments source toks with
  | case1 => exact .ok .refl
  | case2 t rest ih =>
      refine .bind .refl (segment_takes _) fun first h => ?_
      refine .bind h (ih first) fun more hm => .ok (hm.mono ?_)
      rw [List.length_cons]
      omega

/-- So are those of a whole query, be it that its start is a segment or only a mark. -/
theorem start_advances (toks : List Token) :
    Advances source toks List.length (fun _ => []) (start source toks) := by
  unfold start
  split
  · exact .earlier Ahead.refl.cons (segments_advance _)
  · refine .bind Ahead.refl.cons (segments_advance _) fun more hm => .ok (hm.mono ?_)
    rw [List.length_cons]
    omega
  · exact segments_advance _
  · exact .fail .refl

/-! ## Positions -/

/-- A position among tokens: before one of them, or at the end of input behind them. -/
abbrev Position (toks : List Token) := Fin (toks.length + 1)

/-- How a rule that begins at a position ends: at one that is further on, by so much at
least, or with a failure from its beginning on. -/
inductive MovesOn (source : String) (toks : List Token) (i : Position toks) (least : α → Nat)
    (rest : α → List Token) : Except Error α → Prop where
  | ok {a : α} {j : Position toks} (hj : i + least a ≤ j) (hrest : rest a = toks.drop j) :
      MovesOn source toks i least rest (.ok a)
  | error {e : Error} (h : FailsIn source (toks.drop i) e) :
      MovesOn source toks i least rest (.error e)

theorem Ahead.exists_position {i : Position toks} (h : Ahead n (toks.drop i) later) :
    ∃ j : Position toks, i + n ≤ j ∧ later = toks.drop j := by
  obtain ⟨taken, htoks, hn⟩ := h
  have hlength := congrArg List.length htoks
  rw [List.length_drop, List.length_append] at hlength
  have hi := i.isLt
  refine ⟨⟨i + taken.length, by omega⟩, Nat.add_le_add_left hn _, ?_⟩
  rw [← List.drop_drop, htoks, List.drop_left]

theorem Advances.movesOn {i : Position toks} {least : α → Nat} {rest : α → List Token}
    {r : Except Error α} (h : Advances source (toks.drop i) least rest r) :
    MovesOn source toks i least rest r := by
  cases h with
  | error he => exact .error he
  | ok ha =>
      obtain ⟨j, hj, hrest⟩ := ha.exists_position
      exact .ok hj hrest

/-- A rule ends at a later position, or it fails. -/
abbrev EndsLater (source : String) (toks : List Token) (i : Position toks)
    (r : Except Error (Parsed α (toks.drop i))) : Prop :=
  MovesOn source toks i (fun _ => 1) Parsed.rest r

/-- A loop moves on by a position, or more, in each round, or it fails. -/
abbrev GoesRound {Q : List Token → Prop} (source : String) (toks : List Token)
    (i : Position toks) (r : Except Error (List α × Subtype Q)) : Prop :=
  MovesOn source toks i (fun p => p.1.length) (fun p => p.2.1) r

end Rules

/-- How the scan of a source ends: with a failure of its own, or with tokens that cover
the source but for its blanks, each behind the one before and the end of input behind them
all. -/
def IsScanEnd (source : String) : Except Error (List Token) → Prop
  | .ok toks => Tiles 0 source.toList toks ∧
      (toks.map Token.offset ++ [source.length]).Pairwise (· < ·)
  | .error e => IsScanError source e

/-- The scanner and the rules of the grammar make progress. A scan ends as described. From
any position among any tokens, each rule for a segment, a selector or a condition fails or
ends at a later position, the end of input at most. Each loop moves on by a position, or
more, in every round, so that it has no more rounds than there are tokens left; the one
over the segments of a query, and so the reading of a whole query, ends at the end of
input. -/
theorem reading_progresses (source : String) :
    IsScanEnd source (scan source) ∧
      ∀ (toks : List Token) (i : Position toks),
        (EndsLater source toks i (segment source (toks.drop i)) ∧
          EndsLater source toks i (member (P := Filter) source (toks.drop i)) ∧
          EndsLater source toks i (bracket source (toks.drop i)) ∧
          EndsLater source toks i (contents source (toks.drop i)) ∧
          EndsLater source toks i (selectors (P := Filter) source (toks.drop i)) ∧
          EndsLater source toks i (selector (P := Filter) source (toks.drop i)) ∧
          EndsLater source toks i (orFilter source (toks.drop i)) ∧
          EndsLater source toks i (andFilter source (toks.drop i)) ∧
          EndsLater source toks i (unary source (toks.drop i)) ∧
          EndsLater source toks i (comparison source (toks.drop i)) ∧
          EndsLater source toks i (operand source (toks.drop i)) ∧
          EndsLater source toks i (plainOperand source (toks.drop i))) ∧
        GoesRound source toks i (moreSelectors (P := Filter) source (toks.drop i)) ∧
        GoesRound source toks i (moreOr source (toks.drop i)) ∧
        GoesRound source toks i (moreAnd source (toks.drop i)) ∧
        GoesRound source toks i (pathSteps source (toks.drop i)) ∧
        MovesOn source toks i List.length (fun _ => []) (segments source (toks.drop i)) ∧
        MovesOn source toks i List.length (fun _ => []) (start source (toks.drop i)) := by
  refine ⟨?_, fun toks i => ?_⟩
  · have hscan : ScanEnds source 0 source.toList (scan source) :=
      scanFrom_ends (by rw [String.length_toList]; exact Nat.lt_succ_self _) rfl
    cases h : scan source <;> rw [h] at hscan
    · exact hscan
    · refine ⟨hscan, ?_⟩
      have hincreasing := Tiles.increasing hscan
      rwa [Nat.zero_add, String.length_toList] at hincreasing
  · obtain ⟨hor, hmoreOr, hand, hmoreAnd, hunary, hcomparison, hoperand⟩ := rules_advance source
    exact ⟨⟨(segment_takes _).movesOn, (member_takes _).movesOn, (bracket_takes _).movesOn,
      (contents_takes _).movesOn, (selectors_takes _).movesOn, (selector_takes _).movesOn,
      (hor _).movesOn, (hand _).movesOn, (hunary _).movesOn, (hcomparison _).movesOn,
      (hoperand _).movesOn, (plainOperand_takes _).movesOn⟩, (moreSelectors_loops _).movesOn,
      (hmoreOr _).movesOn, (hmoreAnd _).movesOn, (pathSteps_loops _).movesOn,
      (segments_advance _).movesOn, (start_advances _).movesOn⟩

end Conduit.Query
