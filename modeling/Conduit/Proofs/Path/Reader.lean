import Conduit.Path.Reader
import Conduit.Proofs.Text

/-!
# Reading a path step by step

A path is read from left to right, and what a step is read into does not
depend on the steps after it: each rule here takes the text of one step off
and leaves the rest to be read. A name without brackets goes as far as it
can, so a rule about one says where the rest begins.
-/

namespace Conduit

/-- What is made of a result that came about. -/
theorem ok_of_bind {ε α β : Type} {x : Except ε α} {f : α → Except ε β} {b : β}
    (h : (do let a ← x; f a) = .ok b) : ∃ a, x = .ok a ∧ f a = .ok b := by
  cases x with
  | error e => cases h
  | ok a => exact ⟨a, rfl, h⟩

namespace DotPath

theorem closing?_bracket (cs : List Char) : closing? (']' :: cs) = some cs := by
  rw [closing?, Text.dropBlanks_cons (Text.isBlank_eq_false (by decide) (by decide))]
  rfl

/-! ## Quoted names -/

section Quoted

variable {q c : Char} {cs : List Char}

theorem quoted?_protected (h : c ≠ '\n') {p : List Char × List Char} (hp : quoted? q cs = some p) :
    quoted? q ('\\' :: c :: cs) = some ('\\' :: c :: p.1, p.2) := by
  rw [quoted?, if_neg h, hp]

theorem quoted?_close (h : q ≠ '\\') :
    quoted? q (q :: cs) = (closing? cs).map fun after => ([], after) := by
  rw [quoted?, if_pos rfl]
  rintro d rest rfl
  exact absurd rfl h

theorem quoted?_cons (h : c ≠ '\\') (hq : c ≠ q) (hn : c ≠ '\n') :
    quoted? q (c :: cs) = (quoted? q cs).map fun p => (c :: p.1, p.2) := by
  rw [quoted?, if_neg hq, if_neg hn]
  rintro d rest rfl
  exact absurd rfl h

/-- A name in quotes is read up to its closing quote, as long as no line ends
in it. -/
theorem quoted?_escape (hq : q ≠ '\\') {name : List Char} (h : '\n' ∉ name) (cs : List Char) :
    quoted? q (Text.escape q name ++ q :: ']' :: cs) = some (Text.escape q name, cs) := by
  induction name with
  | nil =>
      show quoted? q (q :: ']' :: cs) = some ([], cs)
      rw [quoted?_close hq, closing?_bracket]
      rfl
  | cons c rest ih =>
      obtain ⟨hc, hrest⟩ := not_or.mp (mt List.mem_cons.mpr h)
      rw [Text.escape_cons, List.append_assoc]
      split
      · exact quoted?_protected (Ne.symm hc) (ih hrest)
      · next hspecial =>
          obtain ⟨hslash, hquote⟩ := not_or.mp hspecial
          refine (quoted?_cons hslash hquote (Ne.symm hc)).trans ?_
          show (quoted? q (Text.escape q rest ++ q :: ']' :: cs)).map _ = _
          rw [ih hrest]
          rfl

/-- No line ends in what is read between quotes. -/
theorem newline_not_mem_of_quoted? {p : List Char × List Char} (h : quoted? q cs = some p) :
    '\n' ∉ p.1 := by
  fun_induction quoted? q cs generalizing p with
  | case1 => cases h
  | case2 c rest body after heq ih =>
      cases h
      split at heq
      · cases heq
      · next hc =>
          have := ih heq
          simp [this, Ne.symm hc]
  | case3 c rest heq ih₁ ih₂ =>
      obtain ⟨r, hr, rfl⟩ := Option.map_eq_some_iff.mp h
      have := ih₂ hr
      simp [this]
  | case4 rest =>
      obtain ⟨after, hafter, rfl⟩ := Option.map_eq_some_iff.mp h
      simp
  | case5 => cases h
  | case6 c rest hne hq hn ih =>
      obtain ⟨r, hr, rfl⟩ := Option.map_eq_some_iff.mp h
      have := ih hr
      simp [this, Ne.symm hn]

end Quoted

/-! ## Brackets -/

theorem bracket?_quote {q : Char} (h : q = '\'' ∨ q = '"') (cs : List Char) :
    bracket? (q :: cs) = (quoted? q cs).map fun p => (.quoted p.1, p.2) := by
  rcases h with rfl | rfl
  · rw [bracket?, Text.dropBlanks_cons (Text.isBlank_eq_false (by decide) (by decide))]
    rfl
  · rw [bracket?, Text.dropBlanks_cons (Text.isBlank_eq_false (by decide) (by decide))]
    rfl

/-- The digits of an index, its sign in front, are read up to the closing
bracket. -/
theorem indexed?_digits {negative : Bool} {digits : List Char}
    (h : ∀ c ∈ digits, Text.isDigit c = true) (hne : digits ≠ []) (cs : List Char) :
    indexed? (Text.sign negative ++ (digits ++ ']' :: cs)) =
      some (.index negative digits, cs) := by
  have hsign : sign (Text.sign negative ++ (digits ++ ']' :: cs)) =
      (negative, digits ++ ']' :: cs) := by
    cases negative with
    | true => rfl
    | false =>
        obtain ⟨c, rest, rfl⟩ := List.exists_cons_of_ne_nil hne
        have hc : c ≠ '-' := by
          rintro rfl
          exact absurd (h '-' List.mem_cons_self) (by decide)
        show sign (c :: (rest ++ ']' :: cs)) = (false, c :: (rest ++ ']' :: cs))
        unfold sign
        split
        · next heq =>
            cases heq
            exact absurd rfl hc
        · rfl
  have htake : (digits ++ ']' :: cs).takeWhile Text.isDigit = digits :=
    Text.takeWhile_append h (.cons (by decide))
  rw [indexed?, hsign]
  dsimp only
  rw [htake, if_neg (by simpa using hne), List.drop_left, closing?_bracket]
  rfl

theorem bracket?_digits {negative : Bool} {digits : List Char}
    (h : ∀ c ∈ digits, Text.isDigit c = true) (hne : digits ≠ []) (cs : List Char) :
    bracket? (Text.sign negative ++ (digits ++ ']' :: cs)) =
      some (.index negative digits, cs) := by
  rw [← indexed?_digits h hne]
  obtain ⟨d, rest, rfl⟩ := List.exists_cons_of_ne_nil hne
  obtain ⟨c, more, hc, heq⟩ : ∃ c more, (c = '-' ∨ Text.isDigit c = true) ∧
      Text.sign negative ++ (d :: rest ++ ']' :: cs) = c :: more := by
    cases negative with
    | true => exact ⟨'-', _, .inl rfl, rfl⟩
    | false => exact ⟨d, _, .inr (h d List.mem_cons_self), rfl⟩
  have hfirst : Text.isBlank c = false ∧ c ≠ '\'' ∧ c ≠ '"' := by
    rcases hc with rfl | hc
    · decide
    · refine ⟨Text.isBlank_of_isDigit hc, ?_, ?_⟩ <;>
      · rintro rfl
        exact absurd hc (by decide)
  rw [heq, bracket?, Text.dropBlanks_cons hfirst.1]
  split
  · next h' =>
      cases h'
      exact absurd rfl hfirst.2.1
  · next h' =>
      cases h'
      exact absurd rfl hfirst.2.2
  · rfl

theorem stepOf_quoted (body : List Char) :
    stepOf (.quoted body) = .ok (.field (String.ofList (Text.unescape body))) := rfl

theorem stepOf_index {negative : Bool} {digits : List Char} {i : Int}
    (h : index negative digits = .ok i) : stepOf (.index negative digits) = .ok (.index i) := by
  unfold stepOf
  dsimp only
  rw [h]

/-! ## Steps -/

theorem readSteps_point (text : String) (cs : List Char) :
    readSteps text false ('.' :: cs) = readSteps text true cs := by
  rw [readSteps]
  rfl

theorem readSteps_bracket (text : String) (cs : List Char) :
    readSteps text false ('[' :: cs) = (match bracket? cs with
      | none => .error (.malformedBracket text (text.length - (cs.length + 1)))
      | some (b, after) => do
        let step ← stepOf b
        let steps ← readSteps text false after
        .ok (step :: steps)) := by
  rw [readSteps]
  simp only [Bool.false_eq_true, if_false, List.length_cons]
  split <;> simp_all

theorem readSteps_name (text : String) {name cs : List Char} (hne : name ≠ [])
    (h : ∀ c ∈ name, isNameChar c = true) (hcs : Text.Stops isNameChar cs) :
    readSteps text true (name ++ cs) = (do
      let steps ← readSteps text false cs
      .ok (.field (String.ofList name) :: steps)) := by
  obtain ⟨c, rest, rfl⟩ := List.exists_cons_of_ne_nil hne
  obtain ⟨hc, hrest⟩ := List.forall_mem_cons.mp h
  have hname : nameOf (rest ++ cs) = rest := Text.takeWhile_append hrest hcs
  rw [List.cons_append, readSteps, hname]
  · simp [hc]
  · rintro rfl
    exact absurd hc (by decide)
  · rintro rfl
    exact absurd hc (by decide)

/-! ## Whole paths -/

theorem parse_name {text : String} {name cs : List Char} (htext : text.toList = name ++ cs)
    (hne : name ≠ []) (h : ∀ c ∈ name, isNameChar c = true) (hcs : Text.Stops isNameChar cs) :
    parse text = (do
      let steps ← readSteps text false cs
      .ok ⟨text, String.ofList name, steps⟩) := by
  obtain ⟨c, rest, rfl⟩ := List.exists_cons_of_ne_nil hne
  obtain ⟨hc, hrest⟩ := List.forall_mem_cons.mp h
  have hname : nameOf (rest ++ cs) = rest := Text.takeWhile_append hrest hcs
  unfold parse
  rw [htext, List.cons_append]
  split
  · next heq => cases heq
  · next heq =>
      cases heq
      exact absurd hc (by decide)
  · next heq =>
      cases heq
      exact absurd hc (by decide)
  · next heq =>
      cases heq
      rw [if_pos hc]
      dsimp only
      rw [hname, List.drop_left]

theorem parse_bracket {text : String} {cs : List Char} (htext : text.toList = '[' :: cs) :
    parse text = (match bracket? cs with
      | none => .error (.malformedBracket text 0)
      | some (.index _ _, _) => .error (.noFirstName text)
      | some (.quoted body, after) => do
        let steps ← readSteps text false after
        .ok ⟨text, String.ofList (Text.unescape body), steps⟩) := by
  unfold parse
  rw [htext]
  rfl

end DotPath

end Conduit
