import Conduit.Proofs.Path.Printer
import Conduit.Proofs.Query.Lexeme

/-!
# Queries that are dot paths

A text without blanks outside quotes can be a dot path and a query of steps at
once. Then it is spelled in pieces, and both languages read each piece as one
step: the same step, but for one kind of piece. A numeral after a point is a
name to the dot path, as it is written; the query takes the number that it
stands for and writes it anew.
-/

namespace Conduit

/-! ## Quotes over a text -/

namespace Quoting

variable {m : Quoting} {q : Quote} {cs front rest : List Char}

theorem IsTight.append (h : m.IsTight (front ++ rest)) : (m.after front).IsTight rest := by
  induction front generalizing m with
  | nil => exact h
  | cons c front ih => exact ih h.2

/-- Characters that neither begin nor protect anything. -/
def IsCalm (cs : List Char) : Prop := ∀ c ∈ cs, c ≠ '\'' ∧ c ≠ '"' ∧ c ≠ '\\'

instance (cs : List Char) : Decidable (IsCalm cs) :=
  List.decidableBAll (fun c => c ≠ '\'' ∧ c ≠ '"' ∧ c ≠ '\\') cs

theorem next_calm {c : Char} (h : c ≠ '\'' ∧ c ≠ '"' ∧ c ≠ '\\') : outside.next c = outside := by
  rw [next, if_neg h.1, if_neg h.2.1]

theorem IsTight.of_calm (h : outside.IsTight (front ++ rest)) (hfront : IsCalm front) :
    outside.IsTight rest := by
  induction front with
  | nil => exact h
  | cons c front ih =>
      obtain ⟨hc, hfront⟩ := List.forall_mem_cons.mp hfront
      have hrest := h.2
      rw [next_calm hc] at hrest
      exact ih hrest hfront

theorem Closes.of_calm (h : outside.Closes rest) (hfront : IsCalm front) :
    outside.Closes (front ++ rest) := by
  induction front with
  | nil => exact h
  | cons c front ih =>
      obtain ⟨hc, hfront⟩ := List.forall_mem_cons.mp hfront
      refine ⟨hc.2.2, ?_⟩
      rw [next_calm hc]
      exact ih hfront

theorem after_body {body : List Char} (h : Query.stringBody? q.char cs = some body) :
    (inside q).after body = inside q := by
  fun_induction Query.stringBody? q.char cs generalizing body with
  | case1 => cases h
  | case2 => cases h
  | case3 c more hc ih =>
      obtain ⟨tail, htail, rfl⟩ := Option.map_eq_some_iff.mp h
      exact (after_protected q c tail).trans (ih htail)
  | case4 =>
      cases h
      rfl
  | case5 => cases h
  | case6 c more _ hq hslash ih =>
      obtain ⟨tail, htail, rfl⟩ := Option.map_eq_some_iff.mp h
      show ((inside q).next c).after tail = _
      rw [next_inside hq hslash]
      exact ih htail

theorem Closes.of_body {body : List Char} (hbody : Query.stringBody? q.char cs = some body)
    (h : (inside q).Closes rest) : (inside q).Closes (body ++ rest) := by
  fun_induction Query.stringBody? q.char cs generalizing body with
  | case1 => cases hbody
  | case2 => cases hbody
  | case3 c more hc ih =>
      obtain ⟨tail, htail, rfl⟩ := Option.map_eq_some_iff.mp hbody
      refine ⟨fun heq => absurd heq.symm q.char_ne_backslash, ?_⟩
      rw [Quoting.next, if_neg (Ne.symm q.char_ne_backslash), if_pos rfl]
      exact ⟨hc, ih htail⟩
  | case4 =>
      cases hbody
      exact h
  | case5 => cases hbody
  | case6 c more _ hq hslash ih =>
      obtain ⟨tail, htail, rfl⟩ := Option.map_eq_some_iff.mp hbody
      refine ⟨fun heq => absurd heq hq, ?_⟩
      rw [next_inside hq hslash]
      exact ih htail

end Quoting

namespace Query

open Quoting

/-! ## Pieces -/

/-- One step as it is spelled. -/
inductive Piece where
  | name (chars : List Char)
  | numeral (negative : Bool) (digits : List Char)
  | key (q : Quote) (body : List Char)
  | index (negative : Bool) (digits : List Char)

namespace Piece

def text : Piece → List Char
  | .name chars => '.' :: chars
  | .numeral negative digits => '.' :: (Text.sign negative ++ digits)
  | .key q body => '[' :: q.char :: (body ++ [q.char, ']'])
  | .index negative digits => '[' :: (Text.sign negative ++ (digits ++ [']']))

theorem text_key (q : Quote) (body cs : List Char) :
    (key q body).text ++ cs = '[' :: q.char :: (body ++ q.char :: ']' :: cs) := by
  simp [text]

theorem text_index (negative : Bool) (digits cs : List Char) :
    (index negative digits).text ++ cs =
      '[' :: (Text.sign negative ++ (digits ++ ']' :: cs)) := by
  simp [text]

/-- The step that a query reads. -/
def inQuery : Piece → Step
  | .name chars => .field (String.ofList chars)
  | .numeral negative digits => .field (toString (signed negative digits))
  | .key _ body => .field (String.ofList (Text.unescape body))
  | .index negative digits => .index (signed negative digits)

/-- The step that a dot path reads. -/
def inPath : Piece → Step
  | .numeral negative digits => .field (String.ofList (Text.sign negative ++ digits))
  | x => x.inQuery

def IsNumeral (digits : List Char) : Prop :=
  digits ≠ [] ∧ (∀ c ∈ digits, Text.isDigit c = true) ∧ digits.length ≤ Limit.numeralDigits

def IsValid : Piece → Prop
  | .name chars => chars ≠ [] ∧ ∀ c ∈ chars, Step.isPlainChar c = true
  | .numeral _ digits => IsNumeral digits
  | .key q body => ∀ rest, stringBody? q.char (body ++ q.char :: rest) = some body
  | .index _ digits => IsNumeral digits

end Piece

/-! ## Plain characters -/

theorem isPlainChar_of_class {p : Char → Bool} (hp : ".[]'\"\\".toList.any p = false) {c : Char}
    (h : p c = true) : Step.isPlainChar c = true := by
  simp only [Step.isPlainChar, Bool.not_eq_true', Bool.or_eq_false_iff, decide_eq_false_iff_not]
  have hne : ∀ d ∈ ".[]'\"\\".toList, c ≠ d := by
    rintro d hd rfl
    exact Bool.false_ne_true (hp.symm.trans (List.any_eq_true.mpr ⟨c, hd, h⟩))
  exact ⟨⟨⟨⟨⟨hne '.' (by decide), hne '[' (by decide)⟩, hne ']' (by decide)⟩,
    hne '\'' (by decide)⟩, hne '"' (by decide)⟩, hne '\\' (by decide)⟩

theorem isPlainChar_of_isDigit {c : Char} (h : Text.isDigit c = true) :
    Step.isPlainChar c = true := isPlainChar_of_class (by decide) h

theorem isPlainChar_of_name {c : Char} (h : isNameStart c = true ∨ isNameChar c = true) :
    Step.isPlainChar c = true :=
  h.elim (isPlainChar_of_class (by decide)) (isPlainChar_of_class (by decide))

/-! ## Pieces of a query -/

/-- Each numeral after a point is written as the number it stands for. -/
def HasPlainNumerals (source : List Char) : List Token → Prop
  | ⟨.mark .point, _, _⟩ :: ⟨.number (.int n), offset, size⟩ :: rest =>
    (source.drop offset).take size = (toString n).toList ∧ HasPlainNumerals source rest
  | _ :: rest => HasPlainNumerals source rest
  | [] => True

section Pieces

variable {source : String} {cs : List Char} {toks rest : List Token}

theorem Scanned.of_mark {m : Mark} {offset size : Nat}
    (h : Scanned source cs (⟨.mark m, offset, size⟩ :: toks)) (hcs : outside.IsTight cs) :
    ∃ after, cs = m.text.toList ++ after ∧ Scanned source after toks ∧ outside.IsTight after := by
  obtain ⟨hmark, _, hrest⟩ := h.of_cons hcs
  obtain ⟨after, rfl, hdrop⟩ := text_of_mark hmark
  rw [hdrop] at hrest
  exact ⟨after, rfl, hrest, hcs.of_calm (by cases m <;> decide)⟩

theorem isCalm_of_plain {chars : List Char} (h : ∀ c ∈ chars, Step.isPlainChar c = true) :
    IsCalm chars := fun c hc => (Step.isPlainChar_iff.mp (h c hc)).2

theorem plain_of_numeral {negative : Bool} {digits : List Char}
    (h : ∀ c ∈ digits, Text.isDigit c = true) :
    ∀ c ∈ Text.sign negative ++ digits, Step.isPlainChar c = true := by
  refine List.forall_mem_append.mpr ⟨fun c hc => ?_, fun c hc => isPlainChar_of_isDigit (h c hc)⟩
  obtain rfl := Text.eq_of_mem_sign hc
  decide

theorem Scanned.of_integer {n : Int} {offset size : Nat}
    (h : Scanned source cs (⟨.number (.int n), offset, size⟩ :: toks)) (hcs : outside.IsTight cs) :
    ∃ negative digits after, cs = (Text.sign negative ++ digits) ++ after ∧
      n = signed negative digits ∧ Piece.IsNumeral digits ∧
      (source.toList.drop offset).take size = Text.sign negative ++ digits ∧
      Scanned source after toks ∧ outside.IsTight after := by
  obtain ⟨hnumber, hsource, hrest⟩ := h.of_cons hcs
  obtain ⟨negative, digits, after, heq, hdrop, rfl, hne, hdigits, hshort⟩ :=
    text_of_integer hnumber
  rw [← List.append_assoc] at heq
  have htake : cs.take size = Text.sign negative ++ digits := by
    have happend : cs.take size ++ after = (Text.sign negative ++ digits) ++ after := by
      rw [← heq]
      exact hdrop ▸ List.take_append_drop size cs
    exact List.append_cancel_right happend
  rw [hdrop] at hrest
  refine ⟨negative, digits, after, heq, rfl, ⟨hne, hdigits, hshort⟩, ?_, hrest, ?_⟩
  · exact hsource ▸ htake
  · rw [heq] at hcs
    exact hcs.of_calm (isCalm_of_plain (plain_of_numeral hdigits))

theorem Scanned.of_string {s : String} {offset size : Nat}
    (h : Scanned source cs (⟨.string s, offset, size⟩ :: toks)) (hcs : outside.IsTight cs) :
    ∃ (q : Quote) (body after : List Char), cs = q.char :: (body ++ q.char :: after) ∧
      s = String.ofList (Text.unescape body) ∧ (Piece.key q body).IsValid ∧
      Scanned source after toks ∧ outside.IsTight after := by
  obtain ⟨hstring, _, hrest⟩ := h.of_cons hcs
  obtain ⟨q, body, after, rfl, hdrop, rfl, hbody⟩ := text_of_string hstring
  rw [hdrop] at hrest
  refine ⟨q, body, after, rfl, rfl, hbody, hrest, ?_⟩
  have hinside : (inside q).IsTight (body ++ q.char :: after) := next_outside q ▸ hcs.2
  have hclose := hinside.append
  rw [after_body (hbody [])] at hclose
  have houtside : (inside q).next q.char = outside := by rw [Quoting.next, if_pos rfl]
  exact houtside ▸ hclose.2

theorem Scanned.of_name {s : String} {offset size : Nat}
    (h : Scanned source cs (⟨.name s, offset, size⟩ :: toks)) (hcs : outside.IsTight cs) :
    ∃ chars after, cs = chars ++ after ∧ s = String.ofList chars ∧ (Piece.name chars).IsValid ∧
      Scanned source after toks ∧ outside.IsTight after := by
  obtain ⟨hname, _, hrest⟩ := h.of_cons hcs
  obtain ⟨chars, after, rfl, hdrop, rfl, hne, hchars⟩ := text_of_name hname
  have hplain : ∀ c ∈ chars, Step.isPlainChar c = true :=
    fun c hc => isPlainChar_of_name (hchars c hc)
  rw [hdrop] at hrest
  exact ⟨chars, after, rfl, rfl, ⟨hne, hplain⟩, hrest, hcs.of_calm (isCalm_of_plain hplain)⟩

/-- The tokens of a step stand behind the text of a piece. -/
theorem Scanned.of_step {s : Step} (h : Scanned source cs toks) (hcs : outside.IsTight cs)
    (hs : IsStep rest toks s) :
    ∃ (x : Piece) (after : List Char), x.IsValid ∧ cs = x.text ++ after ∧ s = x.inQuery ∧
      Scanned source after rest ∧ outside.IsTight after ∧
      (HasPlainNumerals source.toList toks ↔
        x.inQuery = x.inPath ∧ HasPlainNumerals source.toList rest) := by
  cases hs with
  | member offset size hmember =>
      obtain ⟨cs, rfl, hscan, htight⟩ := h.of_mark hcs
      cases hmember with
      | name offset size s =>
          obtain ⟨chars, after, rfl, rfl, hvalid, hrest, hafter⟩ := hscan.of_name htight
          refine ⟨.name chars, after, hvalid, rfl, rfl, hrest, hafter, ?_⟩
          simp [HasPlainNumerals, Piece.inPath]
      | numeral offset size n =>
          obtain ⟨negative, digits, after, rfl, rfl, hvalid, htake, hrest, hafter⟩ :=
            hscan.of_integer htight
          refine ⟨.numeral negative digits, after, hvalid, rfl, rfl, hrest, hafter, ?_⟩
          rw [HasPlainNumerals, htake]
          refine and_congr_left fun _ => ?_
          simp only [Piece.inQuery, Piece.inPath, Step.field.injEq]
          constructor
          · intro heq
            rw [heq, String.ofList_toList]
          · intro heq
            rw [heq, String.toList_ofList]
  | key offset size offset' size' hkey =>
      obtain ⟨cs, rfl, hscan, htight⟩ := h.of_mark hcs
      cases hkey with
      | name offset size s =>
          obtain ⟨q, body, close, rfl, rfl, hvalid, hclose, hcloseTight⟩ := hscan.of_string htight
          obtain ⟨after, rfl, hrest, hafter⟩ := hclose.of_mark hcloseTight
          refine ⟨.key q body, after, hvalid, by simp [Piece.text, Mark.text], rfl, hrest, hafter,
            ?_⟩
          simp [HasPlainNumerals, Piece.inPath]
      | index offset size i =>
          obtain ⟨negative, digits, close, rfl, rfl, hvalid, _, hclose, hcloseTight⟩ :=
            hscan.of_integer htight
          obtain ⟨after, rfl, hrest, hafter⟩ := hclose.of_mark hcloseTight
          refine ⟨.index negative digits, after, hvalid, by simp [Piece.text, Mark.text], rfl,
            hrest, hafter, ?_⟩
          simp [HasPlainNumerals, Piece.inPath]

theorem pieces_of_segments {steps : List Step} (h : Scanned source cs toks)
    (hcs : outside.IsTight cs) (hsteps : segments source toks = .ok (steps.map .step)) :
    ∃ pieces : List Piece, (∀ x ∈ pieces, x.IsValid) ∧ cs = pieces.flatMap Piece.text ∧
      steps = pieces.map Piece.inQuery ∧
      (HasPlainNumerals source.toList toks ↔ ∀ x ∈ pieces, x.inQuery = x.inPath) := by
  fun_induction segments source toks generalizing cs steps with
  | case1 =>
      have hnil : steps = [] := by simpa using hsteps
      exact ⟨[], by simp, h.of_nil hcs, hnil, by simp [HasPlainNumerals]⟩
  | case2 t rest ih =>
      obtain ⟨first, hfirst, hsteps⟩ := ok_of_bind hsteps
      obtain ⟨more, hmore, heq⟩ := ok_of_bind hsteps
      cases steps with
      | nil => cases heq
      | cons s steps =>
          obtain ⟨hvalue, rfl⟩ := List.cons.inj (Except.ok.inj heq)
          obtain ⟨x, after, hx, rfl, rfl, hafter, htight, hplain⟩ :=
            h.of_step hcs (segment_tokens source _ first hfirst s hvalue)
          obtain ⟨pieces, hvalid, rfl, rfl, hmorePlain⟩ := ih first hafter htight hmore
          refine ⟨x :: pieces, List.forall_mem_cons.mpr ⟨hx, hvalid⟩, rfl, rfl, ?_⟩
          rw [hplain, hmorePlain, List.forall_mem_cons]

end Pieces

/-! ## Pieces of a dot path -/

section Reading

variable {x : Piece} {cs : List Char} {pieces : List Piece}

theorem closes_inside {q : Quote} {body : List Char} (hx : (Piece.key q body).IsValid)
    (h : outside.Closes cs) : (inside q).Closes (body ++ q.char :: ']' :: cs) := by
  refine .of_body (hx []) ⟨fun _ => rfl, ?_⟩
  rw [Quoting.next, if_pos rfl]
  exact ⟨by decide, h⟩

/-- The scanner gets through a piece. -/
theorem closes_piece (hx : x.IsValid) (h : outside.Closes cs) : outside.Closes (x.text ++ cs) := by
  cases x with
  | name chars => exact .of_calm h (List.forall_mem_cons.mpr ⟨by decide, isCalm_of_plain hx.2⟩)
  | numeral negative digits =>
      exact .of_calm h (List.forall_mem_cons.mpr
        ⟨by decide, isCalm_of_plain (plain_of_numeral hx.2.1)⟩)
  | key q body =>
      have hbody := closes_inside hx h
      rw [← next_outside q] at hbody
      rw [Piece.text_key]
      have hkey : outside.Closes (q.char :: (body ++ q.char :: ']' :: cs)) :=
        ⟨q.char_ne_backslash, hbody⟩
      have hbracket : IsCalm ['['] := List.forall_mem_singleton.mpr (by decide)
      exact hkey.of_calm hbracket
  | index negative digits =>
      refine .of_calm h (List.forall_mem_cons.mpr ⟨by decide, ?_⟩)
      rw [← List.append_assoc]
      exact List.forall_mem_append.mpr
        ⟨isCalm_of_plain (plain_of_numeral hx.2.1), List.forall_mem_singleton.mpr (by decide)⟩

theorem closes_pieces (h : ∀ x ∈ pieces, x.IsValid) :
    outside.Closes (pieces.flatMap Piece.text) := by
  induction pieces with
  | nil => trivial
  | cons x rest ih =>
      obtain ⟨hx, hrest⟩ := List.forall_mem_cons.mp h
      exact closes_piece hx (ih hrest)

/-- A piece begins with a point or a bracket, which no name goes across. -/
theorem stops_pieces (pieces : List Piece) :
    Text.Stops DotPath.isNameChar (pieces.flatMap Piece.text) := by
  cases pieces with
  | nil => exact .nil
  | cons x rest => cases x <;> exact .cons (by decide)

theorem readSteps_plain {text : String} {chars : List Char} {steps : List Step}
    (hne : chars ≠ []) (h : ∀ c ∈ chars, Step.isPlainChar c = true)
    (hcs : Text.Stops DotPath.isNameChar cs)
    (hsteps : DotPath.readSteps text false ('.' :: chars ++ cs) = .ok steps) :
    ∃ more, DotPath.readSteps text false cs = .ok more ∧
      steps = .field (String.ofList chars) :: more := by
  have hchars : ∀ c ∈ chars, DotPath.isNameChar c = true := fun c hc =>
    (Step.isPlainChar_iff.mp (h c hc)).1
  rw [List.cons_append, DotPath.readSteps_point, DotPath.readSteps_name text hne hchars hcs]
    at hsteps
  obtain ⟨more, hmore, heq⟩ := ok_of_bind hsteps
  exact ⟨more, hmore, (Except.ok.inj heq).symm⟩

theorem readSteps_key {text : String} {q : Quote} {body : List Char} {steps : List Step}
    (hx : (Piece.key q body).IsValid) (hcs : outside.Closes cs)
    {b : DotPath.Bracket} {after : List Char}
    (hb : DotPath.bracket? (q.char :: (body ++ q.char :: ']' :: cs)) = some (b, after))
    (hsteps : DotPath.readSteps text false after = .ok steps) :
    b = .quoted body ∧ after = cs := by
  rw [DotPath.bracket?_quote (by cases q <;> simp [Quote.char])] at hb
  obtain ⟨p, hp, heq⟩ := Option.map_eq_some_iff.mp hb
  cases heq
  rcases DotPath.quoted?_synced (closes_inside hx hcs) (hx _) rfl hp with rfl | hlost
  · exact ⟨rfl, rfl⟩
  · exact absurd hsteps (DotPath.readSteps_ne_ok (by simp) hlost)

/-- A piece in front of a text is read as its step, if the text is read at all. -/
theorem readSteps_piece {text : String} {steps : List Step} (hx : x.IsValid)
    (hcs : outside.Closes cs) (hstops : Text.Stops DotPath.isNameChar cs)
    (hsteps : DotPath.readSteps text false (x.text ++ cs) = .ok steps) :
    ∃ more, DotPath.readSteps text false cs = .ok more ∧ steps = x.inPath :: more := by
  cases x with
  | name chars => exact readSteps_plain hx.1 hx.2 hstops hsteps
  | numeral negative digits =>
      exact readSteps_plain (by simp [hx.1]) (plain_of_numeral hx.2.1) hstops hsteps
  | key q body =>
      rw [Piece.text_key, DotPath.readSteps_bracket] at hsteps
      split at hsteps
      · cases hsteps
      · next b after hb =>
          obtain ⟨s, hs, hsteps⟩ := ok_of_bind hsteps
          obtain ⟨more, hmore, heq⟩ := ok_of_bind hsteps
          cases heq
          obtain ⟨rfl, rfl⟩ := readSteps_key hx hcs hb hmore
          cases hs
          exact ⟨more, hmore, rfl⟩
  | index negative digits =>
      have hindex : DotPath.index negative digits = .ok (signed negative digits) := by
        rw [DotPath.index, if_neg (Nat.not_lt.mpr hx.2.2)]
        rfl
      rw [Piece.text_index, DotPath.readSteps_bracket, DotPath.bracket?_digits hx.2.1 hx.1]
        at hsteps
      dsimp only at hsteps
      rw [DotPath.stepOf_index hindex] at hsteps
      obtain ⟨s, hs, hsteps⟩ := ok_of_bind hsteps
      obtain ⟨more, hmore, heq⟩ := ok_of_bind hsteps
      cases hs
      exact ⟨more, hmore, (Except.ok.inj heq).symm⟩

theorem readSteps_pieces {text : String} {steps : List Step} (h : ∀ x ∈ pieces, x.IsValid)
    (hsteps : DotPath.readSteps text false (pieces.flatMap Piece.text) = .ok steps) :
    steps = pieces.map Piece.inPath := by
  induction pieces generalizing steps with
  | nil =>
      rw [List.flatMap_nil, DotPath.readSteps] at hsteps
      exact (Except.ok.inj hsteps).symm
  | cons x rest ih =>
      obtain ⟨hx, hrest⟩ := List.forall_mem_cons.mp h
      obtain ⟨more, hmore, rfl⟩ :=
        readSteps_piece hx (closes_pieces hrest) (stops_pieces rest) hsteps
      rw [ih hrest hmore]
      rfl

/-- A path that begins with a piece begins with a key. -/
theorem parse_pieces {text : String} {p : DotPath} (h : ∀ x ∈ pieces, x.IsValid)
    (htext : text.toList = pieces.flatMap Piece.text) (hp : DotPath.parse text = .ok p) :
    p.steps = pieces.map Piece.inPath := by
  have hpoint : ∀ {cs : List Char}, text.toList ≠ '.' :: cs := by
    intro cs heq
    rw [DotPath.parse, heq] at hp
    cases hp
  cases pieces with
  | nil =>
      rw [DotPath.parse, htext] at hp
      cases hp
  | cons x rest =>
      obtain ⟨hx, hrest⟩ := List.forall_mem_cons.mp h
      cases x with
      | name chars => exact absurd htext hpoint
      | numeral negative digits => exact absurd htext hpoint
      | key q body =>
          rw [DotPath.parse_bracket (htext.trans (Piece.text_key q body _))] at hp
          split at hp
          · cases hp
          · cases hp
          · next body after hb =>
              obtain ⟨more, hmore, heq⟩ := ok_of_bind hp
              obtain ⟨hbody, rfl⟩ := readSteps_key hx (closes_pieces hrest) hb hmore
              cases hbody
              cases heq
              rw [DotPath.steps, readSteps_pieces hrest hmore]
              rfl
      | index negative digits =>
          rw [DotPath.parse_bracket (htext.trans (Piece.text_index negative digits _)),
            DotPath.bracket?_digits hx.2.1 hx.1] at hp
          cases hp

end Reading

/-! ## Whole texts -/

/-- No blank stands outside quotes. -/
def IsTight (text : String) : Prop := outside.IsTight text.toList

instance (text : String) : Decidable (IsTight text) :=
  inferInstanceAs (Decidable (outside.IsTight text.toList))

/-- Each numeral after a point of the query is written as the number it stands
for. -/
def WritesPlainNumerals (text : String) : Prop :=
  ∀ toks, scan text = .ok toks → HasPlainNumerals text.toList toks

/-- A text that is a dot path and a query of steps has the same steps in both,
if and only if each numeral after a point is written as the number it stands
for. -/
theorem steps_eq_iff {text : String} {p : DotPath} {steps : List Step} (htight : IsTight text)
    (hroot : text.toList.head? ≠ some '$') (hp : DotPath.parse text = .ok p)
    (hsteps : parse text = .ok (steps.map .step)) :
    steps = p.steps ↔ WritesPlainNumerals text := by
  unfold parse at hsteps
  split at hsteps
  · cases hsteps
  obtain ⟨toks, htoks, hstart⟩ := ok_of_bind hsteps
  have hscanned : Scanned text text.toList toks :=
    ⟨text.length + 1, 0, by rw [String.length_toList]; exact Nat.lt_succ_self _, rfl, htoks⟩
  have hplain : WritesPlainNumerals text ↔ HasPlainNumerals text.toList toks := by
    refine ⟨fun h => h toks htoks, fun h other hother => ?_⟩
    rw [htoks] at hother
    cases hother
    exact h
  have hsame : ∀ pieces : List Piece, pieces.map Piece.inQuery = pieces.map Piece.inPath ↔
      ∀ x ∈ pieces, x.inQuery = x.inPath := fun pieces => List.map_inj_left
  rw [hplain]
  unfold start at hstart
  split at hstart
  · obtain ⟨after, htext, _⟩ := hscanned.of_mark htight
    exact absurd (congrArg List.head? htext) hroot
  · next s offset size rest =>
      obtain ⟨chars, after, htext, rfl, hchars, hrest, hafter⟩ := hscanned.of_name htight
      obtain ⟨more, hmore, heq⟩ := ok_of_bind hstart
      cases steps with
      | nil => cases heq
      | cons s steps =>
          obtain ⟨hs, rfl⟩ := List.cons.inj (Except.ok.inj heq)
          cases hs
          obtain ⟨pieces, hvalid, rfl, rfl, hnumerals⟩ := pieces_of_segments hrest hafter hmore
          have hname : ∀ c ∈ chars, DotPath.isNameChar c = true := fun c hc =>
            (Step.isPlainChar_iff.mp (hchars.2 c hc)).1
          rw [DotPath.parse_name htext hchars.1 hname (stops_pieces pieces)] at hp
          obtain ⟨more, hmore, heq⟩ := ok_of_bind hp
          cases heq
          rw [DotPath.steps, readSteps_pieces hvalid hmore, List.cons.injEq, hsame, ← hnumerals]
          simp [HasPlainNumerals]
  · obtain ⟨pieces, hvalid, htext, rfl, hnumerals⟩ := pieces_of_segments hscanned htight hstart
    rw [parse_pieces hvalid htext hp, hsame, hnumerals]
  · next hroot hname hbracket =>
      cases toks <;> cases hstart

end Query

end Conduit
