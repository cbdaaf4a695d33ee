import Conduit.Proofs.Query.Lexeme

/-!
# Texts cut between tokens

A text can be cut where a token ends. What stands before the cut is scanned into the
same lexemes when nothing comes behind it any more, and also when a parenthesis
does: no token goes on with a parenthesis, apart from a string, and a string ends at its
quote.
-/

namespace Conduit.Query

variable {cs rest : List Char} {ls ls' : List Lexeme} {size : Nat}

/-- The end of a text or a parenthesis: nothing that a token goes on with. -/
def IsShut (cs : List Char) : Prop := ∀ c ∈ cs.head?, c = '(' ∨ c = ')'

theorem IsShut.stops {p : Char → Bool} (h : IsShut cs) (hopen : p '(' = false)
    (hclose : p ')' = false) : Text.Stops p cs := by
  intro c hc
  rcases h c hc with rfl | rfl
  · exact hopen
  · exact hclose

/-! ## Runs of characters -/

section Runs

variable {p : Char → Bool}

theorem takeWhile_restrict (h : ((cs ++ rest).takeWhile p).length ≤ cs.length) :
    cs.takeWhile p = (cs ++ rest).takeWhile p := by
  rw [List.takeWhile_append] at h ⊢
  split
  · next hall =>
      rw [if_pos hall, List.length_append] at h
      have hnil : rest.takeWhile p = [] := List.eq_nil_of_length_eq_zero (by omega)
      rw [hnil, List.append_nil]
      exact (List.takeWhile_prefix p).eq_of_length hall
  · rfl

theorem takeWhile_extend (h : Text.Stops p rest) :
    (cs ++ rest).takeWhile p = cs.takeWhile p := by
  have hnil : rest.takeWhile p = [] := by
    cases rest with
    | nil => rfl
    | cons c more => rw [List.takeWhile_cons, h c rfl]; rfl
  rw [List.takeWhile_append, hnil, List.append_nil]
  split
  · next hall => exact ((List.takeWhile_prefix p).eq_of_length hall).symm
  · rfl

end Runs

/-! ## Marks -/

theorem isPrefixOf_append {m : Mark} (h : m.text.toList.isPrefixOf cs = true) :
    m.text.toList.isPrefixOf (cs ++ rest) = true := by
  rw [List.isPrefixOf_iff_prefix] at h ⊢
  exact h.trans (List.prefix_append cs rest)

theorem mark?_restrict_none (h : mark? (cs ++ rest) = none) : mark? cs = none := by
  rw [mark?, List.find?_eq_none] at h ⊢
  exact fun m hm hcs => h m hm (isPrefixOf_append hcs)

theorem mark?_restrict {m : Mark} (h : mark? (cs ++ rest) = some m)
    (hsize : m.text.length ≤ cs.length) : mark? cs = some m := by
  rw [mark?, List.find?_eq_some_iff_append] at h ⊢
  obtain ⟨hm, before, after, hall, hbefore⟩ := h
  refine ⟨?_, before, after, hall, fun n hn => ?_⟩
  · rw [List.isPrefixOf_iff_prefix] at hm ⊢
    exact List.prefix_of_prefix_length_le hm (List.prefix_append cs rest)
      (by rwa [String.length_toList])
  · have hnot : n.text.toList.isPrefixOf (cs ++ rest) = false := by simpa using hbefore n hn
    cases hprefix : n.text.toList.isPrefixOf cs with
    | false => rfl
    | true => rw [isPrefixOf_append hprefix] at hnot; cases hnot

theorem isPrefixOf_shut (m : Mark) {c : Char} (hrest : IsShut rest) :
    m.text.toList.isPrefixOf (c :: cs ++ rest) = m.text.toList.isPrefixOf (c :: cs) := by
  obtain ⟨a, ha⟩ | ⟨a, b, hab, hopen, hclose⟩ : (∃ a, m.text.toList = [a]) ∨
      ∃ a b, m.text.toList = [a, b] ∧ b ≠ '(' ∧ b ≠ ')' := by
    cases m <;> first | exact .inl ⟨_, rfl⟩ | exact .inr ⟨_, _, rfl, by decide, by decide⟩
  · rw [ha]
    rfl
  · rw [hab]
    cases cs with
    | cons d more => rfl
    | nil =>
        cases rest with
        | nil => rfl
        | cons d more =>
            have hd : b ≠ d := by
              rcases hrest d rfl with rfl | rfl
              · exact hopen
              · exact hclose
            simp [List.isPrefixOf, hd]

/-- No mark goes on with a parenthesis. -/
theorem mark?_extend {c : Char} (hrest : IsShut rest) :
    mark? (c :: cs ++ rest) = mark? (c :: cs) := by
  unfold mark?
  exact congrArg (List.find? · Mark.all) (funext fun m => isPrefixOf_shut m hrest)

/-! ## Numerals -/

/-- A text behind its sign. -/
def unsigned : List Char → List Char
  | '-' :: rest => rest
  | cs => cs

def wholeDigits (cs : List Char) : List Char := (unsigned cs).takeWhile Text.isDigit

def pointDigits (cs : List Char) : List Char :=
  fractionDigits ((unsigned cs).drop (wholeDigits cs).length)

/-- The numeral with the digits before and behind the point. -/
def numeral (negative : Bool) (whole fraction : List Char) :
    Option (Except Limit Number × Nat) :=
  let size := (if negative then 1 else 0) + whole.length
  if whole.isEmpty then none
  else if fraction.isEmpty then
    some (if Limit.numeralDigits < whole.length then .error (.longNumeral whole.length)
      else .ok (.int (signed negative whole)), size)
  else
    some (.ok (.double (.ofDecimal negative (Text.digitsValue (whole ++ fraction))
      (-fraction.length))), size + 1 + fraction.length)

theorem number?_eq (cs : List Char) :
    number? cs = numeral (cs.head? = some '-') (wholeDigits cs) (pointDigits cs) := by
  unfold number?
  split
  next minus body hbody =>
  obtain ⟨rfl, rfl⟩ : minus = decide (cs.head? = some '-') ∧ body = unsigned cs := by
    split at hbody
    · cases hbody
      exact ⟨rfl, rfl⟩
    · next hminus =>
        cases hbody
        constructor
        · cases cs with
          | nil => rfl
          | cons c rest =>
              have hc : c ≠ '-' := by
                rintro rfl
                exact hminus rest rfl
              simp [hc]
        · rw [unsigned]
          exact hminus
  rfl

theorem unsigned_eq_self {c : Char} (hc : c ≠ '-') : unsigned (c :: cs) = c :: cs := by
  rw [unsigned]
  rintro rest ⟨⟩
  exact hc rfl

theorem unsigned_append {c : Char} : unsigned (c :: cs ++ rest) = unsigned (c :: cs) ++ rest := by
  by_cases hc : c = '-'
  · subst hc
    rfl
  · rw [List.cons_append, unsigned_eq_self hc, unsigned_eq_self hc, List.cons_append]

theorem fractionDigits_eq_nil {c : Char} (hc : c ≠ '.') : fractionDigits (c :: cs) = [] := by
  rw [fractionDigits]
  rintro rest ⟨⟩
  exact hc rfl

/-- The digits behind the point are not cut, or there are none. -/
theorem fractionDigits_restrict (h : fractionDigits (cs ++ rest) = [] ∨
    (fractionDigits (cs ++ rest)).length < cs.length) :
    fractionDigits (cs ++ rest) = fractionDigits cs := by
  cases cs with
  | nil =>
      rcases h with hnil | hlt
      · exact hnil
      · cases hlt
  | cons c more =>
      by_cases hc : c = '.'
      · subst hc
        refine (takeWhile_restrict ?_).symm
        rcases h with hnil | hlt
        · exact Nat.le_trans (Nat.le_of_eq (congrArg List.length hnil)) (Nat.zero_le _)
        · exact Nat.le_of_lt_succ hlt
      · rw [List.cons_append, fractionDigits_eq_nil hc, fractionDigits_eq_nil hc]

theorem fractionDigits_extend (hrest : IsShut rest) :
    fractionDigits (cs ++ rest) = fractionDigits cs := by
  cases cs with
  | nil =>
      cases rest with
      | nil => rfl
      | cons c more => rcases hrest c rfl with rfl | rfl <;> rfl
  | cons c more =>
      by_cases hc : c = '.'
      · subst hc
        exact takeWhile_extend (hrest.stops (by decide) (by decide))
      · rw [List.cons_append, fractionDigits_eq_nil hc, fractionDigits_eq_nil hc]

section

variable {c : Char}

theorem pointDigits_append (hwhole : wholeDigits (c :: cs ++ rest) = wholeDigits (c :: cs)) :
    pointDigits (c :: cs ++ rest) =
      fractionDigits ((unsigned (c :: cs)).drop (wholeDigits (c :: cs)).length ++ rest) := by
  have hle : (wholeDigits (c :: cs)).length ≤ (unsigned (c :: cs)).length :=
    (List.takeWhile_prefix Text.isDigit).length_le
  rw [pointDigits, hwhole, unsigned_append, List.drop_append_of_le_length hle]

theorem number?_append (hwhole : wholeDigits (c :: cs ++ rest) = wholeDigits (c :: cs))
    (hpoint : pointDigits (c :: cs ++ rest) = pointDigits (c :: cs)) :
    number? (c :: cs ++ rest) = number? (c :: cs) := by
  rw [number?_eq, number?_eq, hwhole, hpoint]
  rfl

theorem number?_extend (hrest : IsShut rest) :
    number? (c :: cs ++ rest) = number? (c :: cs) := by
  have hwhole : wholeDigits (c :: cs ++ rest) = wholeDigits (c :: cs) := by
    rw [wholeDigits, unsigned_append]
    exact takeWhile_extend (hrest.stops (by decide) (by decide))
  exact number?_append hwhole ((pointDigits_append hwhole).trans (fractionDigits_extend hrest))

theorem wholeDigits_restrict (h : (wholeDigits (c :: cs ++ rest)).length ≤
    (unsigned (c :: cs)).length) : wholeDigits (c :: cs ++ rest) = wholeDigits (c :: cs) := by
  rw [wholeDigits, unsigned_append] at h ⊢
  exact (takeWhile_restrict h).symm

theorem numeral_eq_none_iff {negative : Bool} {whole fraction : List Char} :
    numeral negative whole fraction = none ↔ whole = [] := by
  rw [numeral, ← List.isEmpty_iff]
  split
  · next h => exact iff_of_true rfl h
  · next h => split <;> exact iff_of_false nofun h

theorem numeral_size {negative : Bool} {whole fraction : List Char} {r : Except Limit Number}
    (h : numeral negative whole fraction = some (r, size)) :
    fraction = [] ∧ (if negative then 1 else 0) + whole.length = size ∨
      fraction ≠ [] ∧
        (if negative then 1 else 0) + whole.length + 1 + fraction.length = size := by
  unfold numeral at h
  dsimp only at h
  split at h
  · cases h
  · split at h
    · next hfraction =>
        cases h
        exact .inl ⟨List.isEmpty_iff.mp hfraction, rfl⟩
    · next hfraction =>
        cases h
        exact .inr ⟨mt List.isEmpty_iff.mpr hfraction, rfl⟩

theorem number?_restrict_none (h : number? (c :: cs ++ rest) = none) :
    number? (c :: cs) = none := by
  rw [number?_eq, numeral_eq_none_iff] at h ⊢
  rw [← wholeDigits_restrict (by rw [h]; exact Nat.zero_le _), h]

theorem length_eq_unsigned : (c :: cs).length =
    (if decide ((c :: cs).head? = some '-') then 1 else 0) + (unsigned (c :: cs)).length := by
  by_cases hc : c = '-'
  · subst hc
    exact Nat.add_comm cs.length 1
  · rw [unsigned_eq_self hc]
    simp [hc]

theorem number?_restrict {r : Except Limit Number} (h : number? (c :: cs ++ rest) = some (r, size))
    (hsize : size ≤ (c :: cs).length) : number? (c :: cs) = some (r, size) := by
  have hsign : (c :: cs ++ rest).head? = (c :: cs).head? := rfl
  rw [length_eq_unsigned] at hsize
  rw [number?_eq, hsign] at h
  have hsizes := numeral_size h
  have hwhole : wholeDigits (c :: cs ++ rest) = wholeDigits (c :: cs) :=
    wholeDigits_restrict (by omega)
  have hpoint : pointDigits (c :: cs ++ rest) = pointDigits (c :: cs) := by
    rw [hwhole] at hsizes
    rw [pointDigits_append hwhole] at hsizes ⊢
    refine fractionDigits_restrict (hsizes.imp And.left fun ⟨_, heq⟩ => ?_)
    rw [List.length_drop]
    omega
  rw [number?_eq, ← hwhole, ← hpoint, h]

end

/-! ## Words -/

section

variable {c : Char} {l : Lexeme}

theorem word?_name (hc : isNameStart c = true) : word? (c :: cs) =
    some (.name (String.ofList (c :: cs.takeWhile isNameChar)),
      (cs.takeWhile isNameChar).length + 1) := by
  have hquote : ¬(c = '"' ∨ c = '\'') := by
    rintro (rfl | rfl) <;> exact absurd hc (by decide)
  rw [word?, if_neg hquote, if_pos hc]
  rfl

theorem word?_string (q : Quote) {body : List Char} (h : stringBody? q.char cs = some body) :
    word? (q.char :: cs) =
      some (.string (String.ofList (Text.unescape body)), body.length + 2) := by
  rw [word?_quote (by cases q <;> decide), h]
  rfl

theorem word?_restrict (h : word? (c :: cs ++ rest) = some (l, size))
    (hsize : size ≤ (c :: cs).length) : word? (c :: cs) = some (l, size) := by
  rcases word?_cases h with ⟨q, text, body, heq, hbody, rfl, rfl⟩ | ⟨d, text, heq, hd, rfl, rfl⟩
  · obtain ⟨rfl, rfl⟩ := List.cons.inj heq
    obtain ⟨⟨more, hmore⟩, hany⟩ := stringBody?_eq q.char_ne_backslash hbody
    have hprefix : body ++ [q.char] <+: cs := by
      refine List.prefix_of_prefix_length_le ⟨more, ?_⟩ (List.prefix_append cs rest) ?_
      · rw [List.append_assoc]
        exact hmore.symm
      · rw [List.length_append]
        exact Nat.le_of_succ_le_succ hsize
    obtain ⟨inside, rfl⟩ := hprefix
    rw [List.append_assoc]
    exact word?_string q (hany inside)
  · obtain ⟨rfl, rfl⟩ := List.cons.inj heq
    have hname : (cs ++ rest).takeWhile isNameChar = cs.takeWhile isNameChar :=
      (takeWhile_restrict (Nat.le_of_succ_le_succ hsize)).symm
    rw [word?_name hd, List.append_eq, hname]

theorem word?_extend (hrest : IsShut rest) (h : word? (c :: cs) = some (l, size)) :
    word? (c :: cs ++ rest) = some (l, size) := by
  rcases word?_cases h with ⟨q, text, body, heq, hbody, rfl, rfl⟩ | ⟨d, text, heq, hd, rfl, rfl⟩
  · obtain ⟨rfl, rfl⟩ := List.cons.inj heq
    obtain ⟨⟨more, rfl⟩, hany⟩ := stringBody?_eq q.char_ne_backslash hbody
    rw [List.cons_append, List.append_assoc]
    exact word?_string q (hany (more ++ rest))
  · obtain ⟨rfl, rfl⟩ := List.cons.inj heq
    have hname : (cs ++ rest).takeWhile isNameChar = cs.takeWhile isNameChar :=
      takeWhile_extend (hrest.stops (by decide +kernel) (by decide +kernel))
    rw [List.cons_append, word?_name hd, hname]

/-! ## Tokens -/

theorem lexeme?_restrict (h : lexeme? (c :: cs ++ rest) = some (.ok l, size))
    (hsize : size ≤ (c :: cs).length) : lexeme? (c :: cs) = some (.ok l, size) := by
  unfold lexeme? at h ⊢
  split at h
  · next m hm =>
      cases h
      rw [mark?_restrict hm hsize]
  · next hm =>
      rw [mark?_restrict_none hm]
      dsimp only
      split at h
      · next n w hn =>
          obtain rfl : w = size := congrArg Prod.snd (Option.some.inj h)
          rw [number?_restrict hn hsize]
          exact h
      · next hn =>
          rw [number?_restrict_none hn]
          obtain ⟨p, hp, heq⟩ := Option.map_eq_some_iff.mp h
          cases heq
          dsimp only
          rw [word?_restrict hp hsize]
          rfl

theorem lexeme?_extend (hrest : IsShut rest) (h : lexeme? (c :: cs) = some (.ok l, size)) :
    lexeme? (c :: cs ++ rest) = some (.ok l, size) := by
  unfold lexeme? at h ⊢
  rw [mark?_extend hrest, number?_extend hrest]
  split at h
  · exact h
  · split at h
    · exact h
    · obtain ⟨p, hp, heq⟩ := Option.map_eq_some_iff.mp h
      cases heq
      rw [word?_extend hrest hp]
      rfl

end

theorem fractionDigits_length_lt (h : fractionDigits cs ≠ []) :
    (fractionDigits cs).length < cs.length := by
  cases cs with
  | nil => exact absurd rfl h
  | cons c more =>
      by_cases hc : c = '.'
      · subst hc
        exact Nat.lt_succ_of_le (List.takeWhile_prefix Text.isDigit).length_le
      · exact absurd (fractionDigits_eq_nil hc) h

theorem number?_size_le {r : Except Limit Number} (h : number? cs = some (r, size)) :
    size ≤ cs.length := by
  cases cs with
  | nil => cases h
  | cons c more =>
      rw [number?_eq] at h
      have hwhole : (wholeDigits (c :: more)).length ≤ (unsigned (c :: more)).length :=
        (List.takeWhile_prefix Text.isDigit).length_le
      rw [length_eq_unsigned]
      rcases numeral_size h with ⟨-, rfl⟩ | ⟨hpoint, rfl⟩
      · exact Nat.add_le_add_left hwhole _
      · have hlt := fractionDigits_length_lt hpoint
        rw [List.length_drop] at hlt
        change (pointDigits (c :: more)).length < _ at hlt
        omega

theorem size_le_length {l : Lexeme} (h : lexeme? cs = some (.ok l, size)) : size ≤ cs.length := by
  rcases lexeme?_cases h with ⟨m, -, rfl, rfl⟩ | ⟨n, hn, -⟩ | hword
  · obtain ⟨rest, rfl, -⟩ := text_of_mark h
    rw [List.length_append, String.length_toList]
    exact Nat.le_add_right _ _
  · exact number?_size_le hn
  · rcases word?_cases hword with ⟨q, text, body, rfl, hbody, -, rfl⟩ | ⟨c, text, rfl, -, -, rfl⟩
    · obtain ⟨⟨more, rfl⟩, -⟩ := stringBody?_eq q.char_ne_backslash hbody
      simp
    · exact Nat.succ_le_succ (List.takeWhile_prefix isNameChar).length_le

theorem size_of_mark {m : Mark} (h : lexeme? cs = some (.ok (.mark m), size)) :
    size = m.text.length := by
  rcases lexeme?_cases h with ⟨_, _, heq, rfl⟩ | ⟨_, _, heq⟩ | hword
  · cases heq
    rfl
  · cases heq
  · rcases word?_cases hword with ⟨_, _, _, _, _, heq, _⟩ | ⟨_, _, _, _, heq, _⟩ <;> cases heq

/-! ## Texts -/

/-- The lexemes of a text, token by token. -/
inductive Spells : List Char → List Lexeme → Prop where
  | nil : Spells [] []
  | blank {c : Char} {cs : List Char} {ls : List Lexeme} (hc : Text.isBlank c = true)
      (h : Spells cs ls) : Spells (c :: cs) ls
  | token {c : Char} {cs : List Char} {l : Lexeme} {size : Nat} {ls : List Lexeme}
      (hc : Text.isBlank c = false) (hl : lexeme? (c :: cs) = some (.ok l, size))
      (h : Spells ((c :: cs).drop size) ls) : Spells (c :: cs) (l :: ls)

theorem Spells.scans (h : Spells cs ls) : Scans cs ls := by
  induction h with
  | nil => exact .nil
  | token hc hl _ ih => exact .cons _ hc hl (size_ne_zero hl) ih
  | blank hc _ ih => exact .blank hc ih

theorem spells_of_scanFrom {source : String} {fuel offset : Nat} {toks : List Token}
    (hfuel : cs.length < fuel) (h : scanFrom source fuel cs offset = .ok toks) :
    Spells cs (toks.map Token.lexeme) := by
  induction fuel generalizing cs offset toks with
  | zero => cases hfuel
  | succ fuel ih =>
      cases cs with
      | nil =>
          cases h
          exact .nil
      | cons c rest =>
          rw [scanFrom] at h
          split at h
          · next hc => exact .blank hc (ih (Nat.lt_of_succ_lt_succ hfuel) h)
          · next hc =>
              split at h
              · cases h
              · cases h
              · next l size hl =>
                  obtain ⟨more, hmore, heq⟩ := ok_of_bind h
                  cases heq
                  have hrest := length_drop_lt hfuel (size_ne_zero hl)
                  exact .token (by simpa using hc) hl (ih hrest hmore)

theorem spells_of_scan {source : String}
    (h : (scan source).map (List.map Token.lexeme) = .ok ls) : Spells source.toList ls := by
  cases hscan : scan source with
  | error e =>
      rw [hscan] at h
      cases h
  | ok toks =>
      rw [hscan] at h
      cases h
      exact spells_of_scanFrom (by rw [String.length_toList]; exact Nat.lt_succ_self _) hscan

theorem scans_iff : Scans cs ls ↔ Spells cs ls := by
  refine ⟨fun h => ?_, Spells.scans⟩
  obtain ⟨toks, htoks, rfl⟩ := h "" (cs.length + 1) 0 (Nat.lt_succ_self _)
  exact spells_of_scanFrom (Nat.lt_succ_self _) htoks

theorem Spells.of_mark {m : Mark} (h : Spells (m.text.toList ++ cs) ls)
    (hmark : mark? (m.text.toList ++ cs) = some m) :
    ∃ more, ls = .mark m :: more ∧ Spells cs more := by
  obtain ⟨c, rest, htext, hc⟩ : ∃ c rest, m.text.toList = c :: rest ∧ Text.isBlank c = false := by
    cases m <;> exact ⟨_, _, rfl, by decide⟩
  have hdrop : (m.text.toList ++ cs).drop m.text.length = cs := by
    rw [← String.length_toList, List.drop_left]
  rw [htext, List.cons_append] at h hmark hdrop
  cases h with
  | blank hblank =>
      rw [hc] at hblank
      cases hblank
  | token _ hl hmore =>
      rw [lexeme?, hmark] at hl
      cases hl
      rw [hdrop] at hmore
      exact ⟨_, rfl, hmore⟩

theorem Spells.unique (h : Spells cs ls) (h' : Spells cs ls') : ls = ls' := by
  obtain ⟨toks, htoks, rfl⟩ := h.scans "" (cs.length + 1) 0 (Nat.lt_succ_self _)
  obtain ⟨toks', htoks', rfl⟩ := h'.scans "" (cs.length + 1) 0 (Nat.lt_succ_self _)
  rw [htoks] at htoks'
  cases htoks'
  rfl

/-- A text before a parenthesis is scanned by itself. -/
theorem Spells.append (h : Spells cs ls) (hrest : IsShut rest) (h' : Spells rest ls') :
    Spells (cs ++ rest) (ls ++ ls') := by
  induction h with
  | nil => exact h'
  | blank hc _ ih => exact .blank hc ih
  | token hc hl _ ih =>
      refine .token hc (lexeme?_extend hrest hl) ?_
      show Spells (List.drop _ (_ :: _ ++ rest)) _
      rw [List.drop_append_of_le_length (size_le_length hl)]
      exact ih

theorem Spells.mark {m : Mark} (hmark : mark? (m.text.toList ++ cs) = some m) (h : Spells cs ls) :
    Spells (m.text.toList ++ cs) (.mark m :: ls) :=
  scans_iff.mp (h.scans.mark hmark)

/-- A text in parentheses, with anything behind them. -/
theorem Spells.paren (h : Spells cs ls) (h' : Spells rest ls') :
    Spells ('(' :: (cs ++ ')' :: rest))
      (.mark .openParen :: (ls ++ .mark .closeParen :: ls')) := by
  have hshut : IsShut (')' :: rest) := by
    rintro c ⟨⟩
    exact .inr rfl
  exact (h.append hshut (h'.mark (m := .closeParen) rfl)).mark (m := .openParen) rfl

/-- A text can be cut between any two of its tokens. -/
theorem Spells.cut (h : Spells cs (ls ++ ls')) :
    ∃ front back, cs = front ++ back ∧ Spells front ls ∧ Spells back ls' := by
  generalize hall : ls ++ ls' = all at h
  induction h generalizing ls with
  | nil =>
      obtain ⟨rfl, rfl⟩ := List.append_eq_nil_iff.mp hall
      exact ⟨[], [], rfl, .nil, .nil⟩
  | blank hc _ ih =>
      obtain ⟨front, back, rfl, hfront, hback⟩ := ih hall
      exact ⟨_ :: front, back, rfl, .blank hc hfront, hback⟩
  | @token c text l size _ hc hl h ih =>
      cases ls with
      | nil =>
          subst hall
          exact ⟨[], _, rfl, .nil, .token hc hl h⟩
      | cons l more =>
          obtain ⟨rfl, hmore⟩ := List.cons.inj hall
          obtain ⟨front, back, hcut, hfront, hback⟩ := ih hmore
          obtain ⟨size, rfl⟩ := Nat.exists_eq_succ_of_ne_zero (size_ne_zero hl)
          -- The first token lies before the cut, so it is still found when the text ends there.
          have hsize : size ≤ text.length := Nat.le_of_succ_le_succ (size_le_length hl)
          rw [List.drop_succ_cons] at hcut
          have htext : text = text.take size ++ front ++ back := by
            rw [List.append_assoc, ← hcut, List.take_append_drop]
          have hdrop : (text.take size ++ front).drop size = front := by
            rw [List.drop_left' (List.length_take_of_le hsize)]
          have hl' : lexeme? (c :: (text.take size ++ front)) = some (.ok l, size + 1) := by
            rw [htext] at hl
            refine lexeme?_restrict hl ?_
            rw [List.length_cons, List.length_append, List.length_take_of_le hsize]
            omega
          refine ⟨c :: (text.take size ++ front), back, congrArg (c :: ·) htext,
            .token hc hl' ?_, hback⟩
          rwa [List.drop_succ_cons, hdrop]

/-- Where a text is cut, a token ends, or a token is cut that is no mark of one
character. -/
theorem Spells.split (h : Spells (cs ++ rest) ls) :
    (∃ first last, ls = first ++ last ∧ Spells cs first ∧ Spells rest last) ∨
      ∃ first l last k, ls = first ++ l :: last ∧ (∀ m, l = .mark m → m.text.length ≠ 1) ∧
        0 < k ∧ Spells (rest.drop k) last := by
  generalize htext : cs ++ rest = text at h
  induction h generalizing cs with
  | nil =>
      obtain ⟨rfl, rfl⟩ := List.append_eq_nil_iff.mp htext
      exact .inl ⟨[], [], rfl, .nil, .nil⟩
  | blank hc h ih =>
      cases cs with
      | nil =>
          subst htext
          exact .inl ⟨[], _, rfl, .nil, .blank hc h⟩
      | cons c more =>
          obtain ⟨rfl, hmore⟩ := List.cons.inj htext
          rcases ih hmore with ⟨first, last, rfl, hfirst, hlast⟩ | hcut
          · exact .inl ⟨first, last, rfl, .blank hc hfirst, hlast⟩
          · exact .inr hcut
  | @token c text l size _ hc hl h ih =>
      cases cs with
      | nil =>
          subst htext
          exact .inl ⟨[], _, rfl, .nil, .token hc hl h⟩
      | cons d more =>
          obtain ⟨rfl, rfl⟩ := List.cons.inj htext
          -- The token reaches over the cut, or it ends before it.
          rcases Nat.lt_or_ge (d :: more).length size with hlong | hshort
          · refine .inr ⟨[], l, _, size - (d :: more).length, rfl, ?_, Nat.sub_pos_of_lt hlong, ?_⟩
            · rintro m rfl hone
              rw [size_of_mark hl, hone, List.length_cons] at hlong
              omega
            · have hdrop : (d :: more ++ rest).drop size =
                  rest.drop (size - (d :: more).length) := by
                rw [List.drop_append, List.drop_eq_nil_of_le (Nat.le_of_lt hlong), List.nil_append]
              exact hdrop ▸ h
          · have hdrop : (d :: more ++ rest).drop size = (d :: more).drop size ++ rest :=
              List.drop_append_of_le_length hshort
            rcases ih hdrop.symm with ⟨first, last, rfl, hfirst, hlast⟩ |
              ⟨first, l', last, k, rfl, hcut⟩
            · exact .inl ⟨l :: first, last, rfl, .token hc (lexeme?_restrict hl hshort) hfirst,
                hlast⟩
            · exact .inr ⟨l :: first, l', last, k, rfl, hcut⟩

theorem spells_bracket : Spells [']'] [.mark .closeBracket] :=
  Spells.nil.mark (m := .closeBracket) rfl

theorem spells_close : Spells [')', ']'] [.mark .closeParen, .mark .closeBracket] :=
  spells_bracket.mark (m := .closeParen) rfl

/-- No token reaches into the two marks that close a filter. -/
theorem Spells.of_close
    (h : Spells (cs ++ [')', ']']) (ls ++ [.mark .closeParen, .mark .closeBracket])) :
    Spells cs ls := by
  rcases h.split with ⟨first, last, heq, hfirst, hlast⟩ | ⟨first, l, last, k, heq, hl, hk, hlast⟩
  · rw [hlast.unique spells_close] at heq
    rwa [List.append_cancel_right heq]
  · match k with
    | 1 =>
        rw [hlast.unique spells_bracket] at heq
        obtain ⟨-, hlasts⟩ := List.append_inj' heq rfl
        cases hlasts
        exact absurd rfl (hl .closeParen rfl)
    | k + 2 =>
        rw [List.drop_eq_nil_of_le (by simp)] at hlast
        rw [hlast.unique .nil, List.append_cons] at heq
        obtain ⟨-, hlasts⟩ := List.append_inj' heq rfl
        cases hlasts
        exact absurd rfl (hl .closeBracket rfl)

end Conduit.Query
