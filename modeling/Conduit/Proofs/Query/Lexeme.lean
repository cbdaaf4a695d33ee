import Conduit.Proofs.Path.Quoting
import Conduit.Proofs.Query.Reader
import Conduit.Proofs.Query.Token

/-!
# The text behind a token

What a token says about the characters that it was scanned from, and what a
step of a query says about the tokens that it was read from. Together they give
the text of a step back, as long as no blanks stand between the tokens.
-/

namespace Conduit.Query

variable {cs : List Char} {size : Nat}

/-! ## Characters of a token -/

theorem lexeme?_cases {l : Lexeme} (h : lexeme? cs = some (.ok l, size)) :
    (∃ m, mark? cs = some m ∧ l = .mark m ∧ size = m.text.length) ∨
      (∃ n, number? cs = some (.ok n, size) ∧ l = .number n) ∨ word? cs = some (l, size) := by
  unfold lexeme? at h
  split at h
  · next m hm =>
      cases h
      exact .inl ⟨m, hm, rfl, rfl⟩
  · split at h
    · next n w hn =>
        cases n with
        | error e => cases h
        | ok n =>
            cases h
            exact .inr (.inl ⟨n, hn, rfl⟩)
    · obtain ⟨p, hp, heq⟩ := Option.map_eq_some_iff.mp h
      cases heq
      exact .inr (.inr hp)

theorem word?_cases {l : Lexeme} (h : word? cs = some (l, size)) :
    (∃ (q : Quote) (rest body : List Char), cs = q.char :: rest ∧
        stringBody? q.char rest = some body ∧
        l = .string (String.ofList (Text.unescape body)) ∧ size = body.length + 2) ∨
      ∃ c rest, cs = c :: rest ∧ isNameStart c = true ∧
        l = .name (String.ofList (c :: rest.takeWhile isNameChar)) ∧
        size = (rest.takeWhile isNameChar).length + 1 := by
  unfold word? at h
  split at h
  · cases h
  · next c rest =>
      split at h
      · next hq =>
          obtain ⟨body, hbody, heq⟩ := Option.map_eq_some_iff.mp h
          cases heq
          rcases hq with rfl | rfl
          · exact .inl ⟨.double, rest, body, rfl, hbody, rfl, rfl⟩
          · exact .inl ⟨.single, rest, body, rfl, hbody, rfl, rfl⟩
      · split at h
        · next hstart =>
            cases h
            exact .inr ⟨c, rest, rfl, hstart, rfl, rfl⟩
        · cases h

theorem text_of_mark {m : Mark} (h : lexeme? cs = some (.ok (.mark m), size)) :
    ∃ rest, cs = m.text.toList ++ rest ∧ cs.drop size = rest := by
  rcases lexeme?_cases h with ⟨_, hmark, heq, rfl⟩ | ⟨_, _, heq⟩ | hword
  · cases heq
    have hfront := List.find?_some hmark
    obtain ⟨rest, rfl⟩ := List.isPrefixOf_iff_prefix.mp hfront
    exact ⟨rest, rfl, by rw [← String.length_toList, List.drop_left]⟩
  · cases heq
  · rcases word?_cases hword with ⟨_, _, _, _, _, heq, _⟩ | ⟨_, _, _, _, heq, _⟩ <;> cases heq

theorem text_of_name {s : String} (h : lexeme? cs = some (.ok (.name s), size)) :
    ∃ name rest, cs = name ++ rest ∧ cs.drop size = rest ∧ s = String.ofList name ∧ name ≠ [] ∧
      ∀ c ∈ name, isNameStart c = true ∨ isNameChar c = true := by
  rcases lexeme?_cases h with ⟨_, _, heq, _⟩ | ⟨_, _, heq⟩ | hword
  · cases heq
  · cases heq
  · rcases word?_cases hword with ⟨_, _, _, _, _, heq, _⟩ | ⟨c, rest, rfl, hc, heq, rfl⟩
    · cases heq
    · cases heq
      refine ⟨c :: rest.takeWhile isNameChar, rest.drop (rest.takeWhile isNameChar).length, ?_,
        rfl, rfl, List.cons_ne_nil _ _, ?_⟩
      · rw [List.cons_append, List.prefix_iff_eq_append.mp (List.takeWhile_prefix isNameChar)]
      · exact List.forall_mem_cons.mpr
          ⟨.inl hc, fun d hd => .inr (List.all_eq_true.mp List.all_takeWhile d hd)⟩

/-- A body is scanned alike, whatever stands behind its closing quote. -/
theorem stringBody?_eq {q : Char} {body : List Char} (hq : q ≠ '\\')
    (h : stringBody? q cs = some body) :
    (∃ rest, cs = body ++ q :: rest) ∧ ∀ rest, stringBody? q (body ++ q :: rest) = some body := by
  fun_induction stringBody? q cs generalizing body with
  | case1 => cases h
  | case2 => cases h
  | case3 c more hc ih =>
      obtain ⟨tail, htail, rfl⟩ := Option.map_eq_some_iff.mp h
      obtain ⟨⟨rest, rfl⟩, hany⟩ := ih htail
      refine ⟨⟨rest, rfl⟩, fun rest => (stringBody?_protected hc).trans ?_⟩
      exact congrArg (Option.map _) (hany rest)
  | case4 more hne =>
      cases h
      exact ⟨⟨more, rfl⟩, fun rest => stringBody?_close hq⟩
  | case5 => cases h
  | case6 c more hne hcq hslash ih =>
      obtain ⟨tail, htail, rfl⟩ := Option.map_eq_some_iff.mp h
      obtain ⟨⟨rest, rfl⟩, hany⟩ := ih htail
      refine ⟨⟨rest, rfl⟩, fun rest => (stringBody?_cons hslash hcq).trans ?_⟩
      exact congrArg (Option.map _) (hany rest)

theorem text_of_string {s : String} (h : lexeme? cs = some (.ok (.string s), size)) :
    ∃ (q : Quote) (body rest : List Char), cs = q.char :: (body ++ q.char :: rest) ∧
      cs.drop size = rest ∧ s = String.ofList (Text.unescape body) ∧
      ∀ rest, stringBody? q.char (body ++ q.char :: rest) = some body := by
  rcases lexeme?_cases h with ⟨_, _, heq, _⟩ | ⟨_, _, heq⟩ | hword
  · cases heq
  · cases heq
  · rcases word?_cases hword with ⟨q, _, body, rfl, hbody, heq, rfl⟩ | ⟨_, _, _, _, heq, _⟩
    · cases heq
      obtain ⟨⟨rest, rfl⟩, hany⟩ := stringBody?_eq q.char_ne_backslash hbody
      refine ⟨q, body, rest, rfl, ?_, rfl, hany⟩
      rw [List.drop_succ_cons, List.append_cons, List.drop_left' (by simp)]
    · cases heq

/-- The integer of a sign and digits. -/
def signed (negative : Bool) (digits : List Char) : Int :=
  if negative then -(Text.digitsValue digits : Int) else Text.digitsValue digits

theorem number?_cases {n : Number} (h : number? cs = some (.ok n, size)) :
    ∃ negative digits rest, cs = Text.sign negative ++ (digits ++ rest) ∧ digits ≠ [] ∧
      (∀ c ∈ digits, Text.isDigit c = true) ∧
      (n = .int (signed negative digits) ∧ digits.length ≤ Limit.numeralDigits ∧
          size = (Text.sign negative).length + digits.length ∨
        (∃ d, n = .double d) ∧ digits.length < size) := by
  unfold number? at h
  split at h
  next minus body hsplit =>
  have hsign : cs = Text.sign minus ++ body := by
    split at hsplit <;> cases hsplit <;> rfl
  have htake := List.prefix_iff_eq_append.mp (List.takeWhile_prefix (l := body) Text.isDigit)
  dsimp only at h
  split at h
  · cases h
  next hne =>
  refine ⟨minus, body.takeWhile Text.isDigit, _, by rw [htake]; exact hsign, by simpa using hne,
    fun c hc => List.all_eq_true.mp List.all_takeWhile c hc, ?_⟩
  split at h
  · split at h
    · cases h
    next hshort =>
    cases h
    exact .inl ⟨rfl, Nat.not_lt.mp hshort, by cases minus <;> rfl⟩
  · cases h
    exact .inr ⟨⟨_, rfl⟩, by omega⟩

theorem text_of_integer {n : Int} (h : lexeme? cs = some (.ok (.number (.int n)), size)) :
    ∃ negative digits rest, cs = Text.sign negative ++ (digits ++ rest) ∧ cs.drop size = rest ∧
      n = signed negative digits ∧ digits ≠ [] ∧ (∀ c ∈ digits, Text.isDigit c = true) ∧
      digits.length ≤ Limit.numeralDigits := by
  rcases lexeme?_cases h with ⟨_, _, heq, _⟩ | ⟨_, hnumber, heq⟩ | hword
  · cases heq
  · cases heq
    obtain ⟨negative, digits, rest, rfl, hne, hdigits, ⟨hn, hshort, rfl⟩ | ⟨⟨_, hn⟩, _⟩⟩ :=
      number?_cases hnumber
    · cases hn
      refine ⟨negative, digits, rest, rfl, ?_, rfl, hne, hdigits, hshort⟩
      rw [← List.append_assoc, List.drop_left' List.length_append]
    · cases hn
  · rcases word?_cases hword with ⟨_, _, _, _, _, heq, _⟩ | ⟨_, _, _, _, heq, _⟩ <;> cases heq

/-- Every token takes a character. -/
theorem size_ne_zero {l : Lexeme} (h : lexeme? cs = some (.ok l, size)) : size ≠ 0 := by
  rcases lexeme?_cases h with ⟨m, _, _, rfl⟩ | ⟨n, hnumber, _⟩ | hword
  · cases m <;> decide
  · obtain ⟨_, digits, _, _, hne, _, hsize⟩ := number?_cases hnumber
    have hpos := List.length_pos_iff.mpr hne
    rcases hsize with ⟨_, _, rfl⟩ | ⟨_, hsize⟩ <;> omega
  · rcases word?_cases hword with ⟨_, _, _, _, _, _, rfl⟩ | ⟨_, _, _, _, _, rfl⟩ <;> simp

/-! ## Tokens without blanks between them -/

open Quoting

variable {source : String} {t : Token} {toks : List Token}

/-- The tokens of the text that stands in the source from some place on. -/
def Scanned (source : String) (cs : List Char) (toks : List Token) : Prop :=
  ∃ fuel offset, cs.length < fuel ∧ source.toList.drop offset = cs ∧
    scanFrom source fuel cs offset = .ok toks

theorem Scanned.of_nil (h : Scanned source cs []) (hcs : outside.IsTight cs) : cs = [] := by
  obtain ⟨fuel, offset, hfuel, _, hscan⟩ := h
  cases cs with
  | nil => rfl
  | cons c rest =>
      cases fuel with
      | zero => cases hfuel
      | succ fuel =>
          rw [scanFrom, hcs.1 rfl] at hscan
          simp only [Bool.false_eq_true, if_false] at hscan
          split at hscan
          · cases hscan
          · cases hscan
          · obtain ⟨_, _, hnil⟩ := ok_of_bind hscan
            cases hnil

theorem Scanned.of_cons (h : Scanned source cs (t :: toks)) (hcs : outside.IsTight cs) :
    lexeme? cs = some (.ok t.lexeme, t.size) ∧ source.toList.drop t.offset = cs ∧
      Scanned source (cs.drop t.size) toks := by
  obtain ⟨fuel, offset, hfuel, hdrop, hscan⟩ := h
  cases fuel with
  | zero => cases hfuel
  | succ fuel =>
      cases cs with
      | nil => cases hscan
      | cons c rest =>
          rw [scanFrom, hcs.1 rfl] at hscan
          simp only [Bool.false_eq_true, if_false] at hscan
          split at hscan
          · cases hscan
          · cases hscan
          · next l size hl =>
              obtain ⟨more, hmore, heq⟩ := ok_of_bind hscan
              cases heq
              refine ⟨hl, hdrop, fuel, offset + size, ?_, ?_, hmore⟩
              · have := size_ne_zero hl
                simp only [List.length_drop, List.length_cons] at hfuel ⊢
                omega
              · rw [← hdrop, List.drop_drop]

/-! ## Tokens of a step -/

/-- What stands between the marks of a bracket, if it is a step. -/
inductive IsKey (rest : List Token) : List Token → Step → Prop where
  | name (offset size : Nat) (s : String) :
    IsKey rest (⟨.string s, offset, size⟩ :: rest) (.field s)
  | index (offset size : Nat) (i : Int) :
    IsKey rest (⟨.number (.int i), offset, size⟩ :: rest) (.index i)

/-- What stands behind a point, if it is a step. -/
inductive IsMember (rest : List Token) : List Token → Step → Prop where
  | name (offset size : Nat) (s : String) :
    IsMember rest (⟨.name s, offset, size⟩ :: rest) (.field s)
  | numeral (offset size : Nat) (n : Int) :
    IsMember rest (⟨.number (.int n), offset, size⟩ :: rest) (.field (toString n))

/-- The tokens of a step, with the rest behind them. -/
inductive IsStep (rest : List Token) : List Token → Step → Prop where
  | member (offset size : Nat) {toks : List Token} {s : Step} (h : IsMember rest toks s) :
    IsStep rest (⟨.mark .point, offset, size⟩ :: toks) s
  | key (offset size offset' size' : Nat) {toks : List Token} {s : Step}
      (h : IsKey (⟨.mark .closeBracket, offset', size'⟩ :: rest) toks s) :
    IsStep rest (⟨.mark .openBracket, offset, size⟩ :: toks) s

section Rules

variable {P : Type} (source : String)

theorem member_tokens (toks : List Token) :
    Yields (fun p => ∀ s, p.value = .step s → IsMember p.rest toks s)
      (member (P := P) source toks) := by
  unfold member
  split
  · exact .ok fun s hs => by cases hs
  · exact .ok fun s hs => by cases hs; exact .name _ _ _
  · exact .ok fun s hs => by cases hs; exact .numeral _ _ _
  · exact .fail

theorem selector_tokens (toks : List Token) :
    Yields (fun p => ∀ s, p.value = .step s → IsKey p.rest toks s)
      (selector (P := P) source toks) := by
  unfold selector
  split
  · exact .ok fun s hs => by cases hs; exact .name _ _ _
  · exact .bind .any fun p _ => .ok fun s hs => by cases hs
  · exact .ok fun s hs => by cases hs; exact .index _ _ _
  · exact .fail
  · exact .bind .any fun p _ => .ok fun s hs => by cases hs

theorem moreSelectors_tokens (toks : List Token) :
    Yields (fun p => p.1 = [] → p.2.1 = toks) (moreSelectors (P := P) source toks) := by
  rw [moreSelectors.eq_def]
  split
  · refine .bind .any fun first _ => .bind .any fun more _ => .ok fun hnil => ?_
    cases hnil
  · exact .ok fun _ => rfl

theorem selectors_tokens (toks : List Token) :
    Yields (fun p => ∀ s, p.value = .step s → IsKey p.rest toks s)
      (selectors (P := P) source toks) := by
  unfold selectors
  refine .bind (selector_tokens source toks) fun first hfirst => ?_
  refine .bind (moreSelectors_tokens source first.rest) fun more hmore => .ok fun s hs => ?_
  dsimp only at hs ⊢
  split at hs
  · next hnil =>
      rw [hmore (List.isEmpty_iff.mp hnil)]
      exact hfirst s hs
  · cases hs

theorem contents_tokens (toks : List Token) :
    Yields (fun p => ∀ s, p.value = .step s → IsKey p.rest toks s) (contents source toks) := by
  unfold contents
  split
  · exact .ok fun s hs => by cases hs
  · refine .bind .any fun _ _ => .bind .any fun _ _ => .bind .any fun _ _ => .ok fun s hs => ?_
    cases hs
  · exact selectors_tokens source _

theorem expect_tokens (m : Mark) (what : String) (toks : List Token) :
    Yields (fun p => ∃ offset size, toks = ⟨.mark m, offset, size⟩ :: p.rest)
      (expect source m what toks) := by
  unfold expect
  split
  · split
    · next hm => exact .ok ⟨_, _, by rw [hm]⟩
    · exact .fail
  · exact .fail

theorem bracket_tokens (toks : List Token) :
    Yields (fun p => ∀ s, p.value = .step s → ∃ offset size,
      IsKey (⟨.mark .closeBracket, offset, size⟩ :: p.rest) toks s) (bracket source toks) := by
  unfold bracket
  refine .bind (contents_tokens source _) fun inner hinner => ?_
  refine .bind (expect_tokens source _ _ _) fun close hclose => .ok fun s hs => ?_
  obtain ⟨offset, size, heq⟩ := hclose
  refine ⟨offset, size, ?_⟩
  dsimp only
  rw [← heq]
  exact hinner s hs

theorem segment_tokens (toks : List Token) :
    Yields (fun p => ∀ s, p.value = .step s → IsStep p.rest toks s) (segment source toks) := by
  unfold segment
  split
  · exact .bind (member_tokens source _) fun p hp => .ok fun s hs => .member _ _ (hp s hs)
  · exact .bind .any fun p _ => .ok fun s hs => by cases hs
  · exact .bind .any fun p _ => .ok fun s hs => by cases hs
  · refine .bind (bracket_tokens source _) fun p hp => .ok fun s hs => ?_
    obtain ⟨offset, size, hkey⟩ := hp s hs
    exact .key _ _ _ _ hkey
  · exact .fail

end Rules

end Conduit.Query
