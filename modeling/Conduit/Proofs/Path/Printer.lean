import Conduit.Path.Printer
import Conduit.Proofs.Path.Reader

/-!
# Reading a written path

A path that is written is read into the steps it was written from, with one
exception: a name that stands in quotes cannot hold a line end. So the steps
come back exactly if each name with a line end in it can do without quotes.

Both directions go through the text of one step: a step that comes back does
so whatever stands behind it, and one that does not is read, if at all, into
another step.
-/

namespace Conduit

namespace Step

/-- A name that holds no line end, or that is written without quotes. -/
def IsRecoverable : Step → Prop
  | .index _ => True
  | .field name => isPlainName name = true ∨ '\n' ∉ name.toList

/-- An index of no more digits than can be written and read. -/
def IsShort : Step → Prop
  | .index i => Text.IsShort i
  | .field _ => True

/-- The characters that a step is written with. -/
def written (first : Bool) : Step → List Char
  | .index i => '[' :: ((toString i).toList ++ [']'])
  | .field name =>
    if isPlainName name then (if first then name.toList else '.' :: name.toList)
    else '[' :: '\'' :: (Text.escape '\'' name.toList ++ ['\'', ']'])

theorem isPlainChar_iff {c : Char} : isPlainChar c = true ↔
    DotPath.isNameChar c = true ∧ c ≠ '\'' ∧ c ≠ '"' ∧ c ≠ '\\' := by
  simp only [isPlainChar, DotPath.isNameChar, Bool.not_eq_true', Bool.or_eq_false_iff,
    decide_eq_false_iff_not]
  constructor
  · rintro ⟨⟨⟨⟨⟨h₁, h₂⟩, h₃⟩, h₄⟩, h₅⟩, h₆⟩
    exact ⟨⟨⟨h₁, h₂⟩, h₃⟩, h₄, h₅, h₆⟩
  · rintro ⟨⟨⟨h₁, h₂⟩, h₃⟩, h₄, h₅, h₆⟩
    exact ⟨⟨⟨⟨⟨h₁, h₂⟩, h₃⟩, h₄⟩, h₅⟩, h₆⟩

theorem text_eq {s : Step} (h : s.IsShort) (first : Bool) :
    s.text first = .ok (String.ofList (s.written first)) := by
  cases s with
  | index i =>
      have hlong : ¬Nat.pow 10 Limit.numeralDigits ≤ i.natAbs := Nat.not_le.mpr h
      rw [text, Number.text, if_neg hlong]
      refine congrArg Except.ok (String.toList_inj.mp ?_)
      simp [written]
  | field name =>
      rw [text, written]
      refine (apply_ite Except.ok _ _ _).symm.trans (congrArg Except.ok ?_)
      refine String.toList_inj.mp ?_
      cases first <;> by_cases hn : isPlainName name = true <;> simp [hn]

end Step

namespace DotPath

variable {text : String} {cs : List Char}

/-- The characters that steps after the first one are written with. -/
def writtenSteps (steps : List Step) : List Char := steps.flatMap (Step.written false)

theorem formatSteps_eq {steps : List Step} (h : ∀ s ∈ steps, s.IsShort) :
    formatSteps false steps = .ok (steps.map fun s => String.ofList (s.written false)) := by
  induction steps with
  | nil => rfl
  | cons s rest ih =>
      obtain ⟨hs, hrest⟩ := List.forall_mem_cons.mp h
      rw [formatSteps, Step.text_eq hs, ih hrest]
      rfl

theorem format_eq {head : String} {rest : List Step} (h : ∀ s ∈ rest, s.IsShort) :
    format (.field head :: rest) =
      .ok (String.ofList ((Step.field head).written true ++ writtenSteps rest)) := by
  have hhead : (Step.field head).IsShort := trivial
  rw [format, formatSteps, Step.text_eq hhead, formatSteps_eq h]
  refine congrArg Except.ok (String.toList_inj.mp ?_)
  simp [writtenSteps, List.flatMap_map]

/-! ## One step -/

/-- A step begins with a point or a bracket, which no name goes across. -/
theorem stops_writtenSteps (steps : List Step) : Text.Stops isNameChar (writtenSteps steps) := by
  cases steps with
  | nil => exact .nil
  | cons s rest =>
      show Text.Stops isNameChar (s.written false ++ writtenSteps rest)
      cases s with
      | index i => exact .cons (by decide)
      | field name =>
          rw [Step.written]
          split
          · exact .cons (by decide)
          · exact .cons (by decide)

theorem isNameChar_of_isPlainName {name : String} (h : Step.isPlainName name = true) :
    name.toList ≠ [] ∧ ∀ c ∈ name.toList, isNameChar c = true := by
  simp only [Step.isPlainName, Bool.and_eq_true, decide_eq_true_eq, List.all_eq_true] at h
  exact ⟨fun hnil => h.1 (String.toList_inj.mp hnil), fun c hc =>
    (Step.isPlainChar_iff.mp (h.2 c hc)).1⟩

theorem index_toDigits {i : Int} (h : Text.IsShort i) :
    index (decide (i < 0)) (Nat.toDigits 10 i.natAbs) = .ok i := by
  rw [index, if_neg (Nat.not_lt.mpr ((Text.isShort_iff i).mp h))]
  exact congrArg Except.ok (Text.signed_digitsValue i)

/-- What is made of the rest comes back if the rest does. -/
theorem map_eq_ok_iff {α : Type} {f : List Step → α} (hf : ∀ {a b}, f a = f b → a = b)
    {rest : List Step} {x : Except PathError (List Step)} :
    (do let steps ← x; .ok (f steps)) = .ok (f rest) ↔ x = .ok rest := by
  cases x with
  | error e => exact iff_of_false (fun h => by cases h) (fun h => by cases h)
  | ok steps => exact ⟨fun h => congrArg _ (hf (Except.ok.inj h)), fun h => by rw [h]; rfl⟩

theorem cons_eq_ok_iff {s : Step} {rest : List Step} {x : Except PathError (List Step)} :
    (do let steps ← x; .ok (s :: steps)) = .ok (s :: rest) ↔ x = .ok rest :=
  map_eq_ok_iff fun h => (List.cons.inj h).2

theorem readSteps_index {i : Int} (h : Text.IsShort i) :
    readSteps text false ((Step.index i).written false ++ cs) = (do
      let steps ← readSteps text false cs
      .ok (.index i :: steps)) := by
  have hdigits : ∀ c ∈ Nat.toDigits 10 i.natAbs, Text.isDigit c = true :=
    fun _ hc => Text.isDigit_of_mem_toDigits hc
  have htext : (Step.index i).written false ++ cs = '[' :: (Text.sign (decide (i < 0)) ++
      (Nat.toDigits 10 i.natAbs ++ ']' :: cs)) := by
    rw [Step.written, Text.toList_toString]
    simp
  rw [htext, readSteps_bracket, bracket?_digits hdigits Nat.toDigits_ne_nil]
  dsimp only
  rw [stepOf_index (index_toDigits h)]
  rfl

theorem readSteps_plain {name : String} (h : Step.isPlainName name = true)
    (hcs : Text.Stops isNameChar cs) :
    readSteps text false ((Step.field name).written false ++ cs) = (do
      let steps ← readSteps text false cs
      .ok (.field name :: steps)) := by
  obtain ⟨hne, hchars⟩ := isNameChar_of_isPlainName h
  rw [Step.written, if_pos h]
  show readSteps text false ('.' :: (name.toList ++ cs)) = _
  rw [readSteps_point, readSteps_name text hne hchars hcs, String.ofList_toList]

theorem written_quoted {name : String} (h : ¬Step.isPlainName name = true) (first : Bool) :
    (Step.field name).written first ++ cs =
      '[' :: '\'' :: (Text.escape '\'' name.toList ++ '\'' :: ']' :: cs) := by
  rw [Step.written, if_neg h]
  simp

/-- Quotes give back what stands between them, unless it holds a line end. -/
theorem bracket?_escape {name : String} (h : '\n' ∉ name.toList) (cs : List Char) :
    bracket? ('\'' :: (Text.escape '\'' name.toList ++ '\'' :: ']' :: cs)) =
        some (.quoted (Text.escape '\'' name.toList), cs) ∧
      String.ofList (Text.unescape (Text.escape '\'' name.toList)) = name := by
  rw [bracket?_quote (.inl rfl), quoted?_escape (by decide) h, Text.unescape_escape (by decide),
    String.ofList_toList]
  exact ⟨rfl, rfl⟩

theorem unescape_ne_of_newline {name : String} (h : '\n' ∈ name.toList) {b : Bracket}
    {after : List Char} (hb : bracket? ('\'' :: cs) = some (b, after)) :
    ∃ body, b = .quoted body ∧ String.ofList (Text.unescape body) ≠ name := by
  rw [bracket?_quote (.inl rfl)] at hb
  obtain ⟨p, hp, heq⟩ := Option.map_eq_some_iff.mp hb
  cases heq
  refine ⟨p.1, rfl, ?_⟩
  rintro rfl
  rw [String.toList_ofList] at h
  exact newline_not_mem_of_quoted? hp (Text.mem_of_mem_unescape h)

/-- A step comes back, together with what is read behind it, exactly if it is
recoverable. -/
theorem readSteps_written_iff {s : Step} (hs : s.IsShort) (hcs : Text.Stops isNameChar cs)
    {rest : List Step} :
    readSteps text false (s.written false ++ cs) = .ok (s :: rest) ↔
      s.IsRecoverable ∧ readSteps text false cs = .ok rest := by
  cases s with
  | index i => rw [readSteps_index hs, cons_eq_ok_iff, Step.IsRecoverable, true_and]
  | field name =>
      by_cases hplain : Step.isPlainName name = true
      · rw [readSteps_plain hplain hcs, cons_eq_ok_iff, Step.IsRecoverable, or_iff_left_of_imp
          (fun _ => hplain), and_iff_right hplain]
      · rw [written_quoted hplain, readSteps_bracket, Step.IsRecoverable, or_iff_right hplain]
        by_cases hname : '\n' ∈ name.toList
        · refine iff_of_false (fun h => ?_) (fun h => h.1 hname)
          split at h
          · cases h
          · next b after hb =>
              obtain ⟨body, rfl, hbody⟩ := unescape_ne_of_newline hname hb
              rw [stepOf_quoted] at h
              cases hsteps : readSteps text false after <;> rw [hsteps] at h <;> cases h
              exact hbody rfl
        · obtain ⟨hbracket, hback⟩ := bracket?_escape hname cs
          rw [hbracket, and_iff_right hname]
          dsimp only
          rw [stepOf_quoted, hback]
          exact cons_eq_ok_iff

theorem readSteps_writtenSteps_iff {steps : List Step} (h : ∀ s ∈ steps, s.IsShort) :
    readSteps text false (writtenSteps steps) = .ok steps ↔ ∀ s ∈ steps, s.IsRecoverable := by
  induction steps with
  | nil => simp [writtenSteps, readSteps]
  | cons s rest ih =>
      obtain ⟨hs, hrest⟩ := List.forall_mem_cons.mp h
      show readSteps text false (s.written false ++ writtenSteps rest) = _ ↔ _
      rw [readSteps_written_iff hs (stops_writtenSteps rest), ih hrest, List.forall_mem_cons]

/-! ## Whole paths -/

theorem parse_written_iff {head : String} {rest : List Step} (h : ∀ s ∈ rest, s.IsShort)
    (htext : text.toList = (Step.field head).written true ++ writtenSteps rest) :
    parse text = .ok ⟨text, head, rest⟩ ↔ ∀ s ∈ Step.field head :: rest, s.IsRecoverable := by
  have hinj : ∀ {a b : List Step}, DotPath.mk text head a = ⟨text, head, b⟩ → a = b := by
    intro a b hab
    cases hab
    rfl
  have hsteps : readSteps text false (writtenSteps rest) = .ok rest ↔ _ :=
    readSteps_writtenSteps_iff h
  rw [List.forall_mem_cons, ← hsteps, Step.IsRecoverable]
  by_cases hplain : Step.isPlainName head = true
  · obtain ⟨hne, hchars⟩ := isNameChar_of_isPlainName hplain
    have hwritten : text.toList = head.toList ++ writtenSteps rest := by
      rw [htext, Step.written, if_pos hplain, if_pos rfl]
    rw [parse_name hwritten hne hchars (stops_writtenSteps rest), String.ofList_toList,
      and_iff_right (.inl hplain)]
    exact map_eq_ok_iff hinj
  · rw [written_quoted hplain] at htext
    rw [parse_bracket htext, or_iff_right hplain]
    by_cases hname : '\n' ∈ head.toList
    · refine iff_of_false (fun hparse => ?_) (fun hand => hand.1 hname)
      split at hparse
      · cases hparse
      · cases hparse
      · next body after hb =>
          obtain ⟨_, heq, hbody⟩ := unescape_ne_of_newline hname hb
          cases heq
          cases hsteps : readSteps text false after <;> rw [hsteps] at hparse <;> cases hparse
          exact hbody rfl
    · obtain ⟨hbracket, hback⟩ := bracket?_escape hname (writtenSteps rest)
      rw [hbracket, and_iff_right hname]
      dsimp only
      rw [hback]
      exact map_eq_ok_iff hinj

/-- Any steps that begin with a name and whose indices can be written have a
path, and reading it gives them back, exactly if each name with a line end in
it is written without quotes. -/
theorem parse_format_iff (head : String) {rest : List Step} (h : ∀ s ∈ rest, s.IsShort) :
    ∃ text, format (.field head :: rest) = .ok text ∧
      (parse text = .ok ⟨text, head, rest⟩ ↔
        ∀ s ∈ Step.field head :: rest, s.IsRecoverable) :=
  ⟨_, format_eq h, parse_written_iff h (by rw [String.toList_ofList])⟩

/-- A key with a point, an index and a name in quotes that ends in a
backslash. -/
def keySteps : List Step := [.field "x.y", .index (-1), .field "it's \\"]

theorem parse_format_iff_keys :
    (∀ s ∈ keySteps, s.IsShort) ∧ (∀ s ∈ Step.field "headers" :: keySteps, s.IsRecoverable) ∧
      ∃ text, format (.field "headers" :: keySteps) = .ok text ∧
        (parse text = .ok ⟨text, "headers", keySteps⟩ ↔
          ∀ s ∈ Step.field "headers" :: keySteps, s.IsRecoverable) := by
  have hshort : ∀ s ∈ keySteps, s.IsShort := by
    simp only [keySteps, List.forall_mem_cons]
    exact ⟨trivial, (Text.isShort_iff (-1)).mpr (by decide), trivial, by simp⟩
  have hback : ∀ s ∈ Step.field "headers" :: keySteps, s.IsRecoverable := by
    simp only [keySteps, List.forall_mem_cons]
    exact ⟨.inr (by decide), .inr (by decide), trivial, .inr (by decide), by simp⟩
  exact ⟨hshort, hback, parse_format_iff "headers" hshort⟩

/-- A name with a quote and a line end has a path that cannot be read. -/
theorem format_newline_unreadable :
    format [.field "it's\n"] = .ok "['it\\'s\n']" ∧
      parse "['it\\'s\n']" = .error (.malformedBracket "['it\\'s\n']" 0) := by
  refine ⟨by rfl, by rfl⟩

/-! ## What was read can be written -/

theorem isShort_of_index {negative : Bool} {digits : List Char} {i : Int}
    (h : index negative digits = .ok i) : Text.IsShort i := by
  unfold index at h
  split at h
  · cases h
  · next hlength =>
      cases h
      exact Text.isShort_digitsValue (Nat.not_lt.mp hlength) negative

theorem isShort_of_stepOf {b : Bracket} {s : Step} (h : stepOf b = .ok s) : s.IsShort := by
  cases b with
  | index negative digits =>
      unfold stepOf at h
      dsimp only at h
      split at h
      · next i hi =>
          cases h
          exact isShort_of_index hi
      · cases h
  | quoted body =>
      cases h
      trivial

theorem isShort_of_readSteps {text : String} {point : Bool} {cs : List Char} {steps : List Step}
    (h : readSteps text point cs = .ok steps) : ∀ s ∈ steps, s.IsShort := by
  fun_induction readSteps text point cs generalizing steps with
  | case1 => cases h
  | case2 =>
      cases h
      exact List.forall_mem_nil _
  | case3 => cases h
  | case4 => cases h
  | case5 =>
      rename_i ih
      obtain ⟨s, hs, h⟩ := ok_of_bind h
      obtain ⟨rest, hrest, h⟩ := ok_of_bind h
      cases h
      exact List.forall_mem_cons.mpr ⟨isShort_of_stepOf hs, ih hrest⟩
  | case6 => cases h
  | case7 =>
      rename_i ih
      exact ih h
  | case8 =>
      rename_i ih
      obtain ⟨rest, hrest, h⟩ := ok_of_bind h
      cases h
      exact List.forall_mem_cons.mpr ⟨trivial, ih hrest⟩
  | case9 => cases h

/-- All indices of a path that was read can be written again. -/
theorem isShort_of_parse {text : String} {p : DotPath} (h : parse text = .ok p) :
    ∀ s ∈ p.rest, s.IsShort := by
  unfold parse at h
  split at h
  · cases h
  · split at h
    · cases h
    · cases h
    · obtain ⟨steps, hsteps, h⟩ := ok_of_bind h
      cases h
      exact isShort_of_readSteps hsteps
  · cases h
  · split at h
    · obtain ⟨steps, hsteps, h⟩ := ok_of_bind h
      cases h
      exact isShort_of_readSteps hsteps
    · cases h

end DotPath

end Conduit
