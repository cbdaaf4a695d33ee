import Conduit.Proofs.Path.Reader
import Conduit.Query.Token

/-!
# Quotes seen by two readers

The reader of dot paths and the scanner of queries do not agree on where a
quoted name ends. The scanner takes every backslash with the character behind
it. The reader allows no line end in a name, and where that reading leaves the
bracket open, it takes a backslash for itself and may close the name early.

Once it has done so, the two never meet again: whenever the reader stands
outside quotes, the scanner stands inside, so a text that the scanner gets to
the end of is one that the reader gives up.
-/

namespace Conduit

/-! ## Quotes -/

inductive Quote where
  | single | double
  deriving DecidableEq

namespace Quote

def char : Quote → Char
  | .single => '\''
  | .double => '"'

theorem char_inj {q r : Quote} (h : q.char = r.char) : q = r := by
  cases q <;> cases r <;> first | rfl | exact absurd h (by decide)

theorem char_ne_backslash (q : Quote) : q.char ≠ '\\' := by cases q <;> decide

theorem isBlank_char (q : Quote) : Text.isBlank q.char = false := by cases q <;> decide

end Quote

/-- Where the scanner stands: outside quotes, inside them, or inside them right
behind a backslash. -/
inductive Quoting where
  | outside
  | inside (q : Quote)
  | escaped (q : Quote)
  deriving DecidableEq

namespace Quoting

def next : Quoting → Char → Quoting
  | outside, c => if c = '\'' then inside .single else if c = '"' then inside .double else outside
  | inside q, c => if c = q.char then outside else if c = '\\' then escaped q else inside q
  | escaped q, _ => inside q

def after (m : Quoting) (cs : List Char) : Quoting := cs.foldl next m

/-- No blank stands outside quotes. -/
def IsTight (m : Quoting) : List Char → Prop
  | [] => True
  | c :: rest => (m = outside → Text.isBlank c = false) ∧ (m.next c).IsTight rest

instance decidableIsTight (m : Quoting) : (cs : List Char) → Decidable (m.IsTight cs)
  | [] => isTrue trivial
  | c :: rest =>
    have := decidableIsTight (m.next c) rest
    inferInstanceAs (Decidable ((m = outside → Text.isBlank c = false) ∧ (m.next c).IsTight rest))

/-- The scanner gets to the end and finds every quoted name closed right before
a closing bracket. -/
def Closes : Quoting → List Char → Prop
  | outside, [] => True
  | _, [] => False
  | outside, c :: rest => c ≠ '\\' ∧ (outside.next c).Closes rest
  | inside q, c :: rest => (c = q.char → rest.head? = some ']') ∧ ((inside q).next c).Closes rest
  | escaped q, c :: rest => c ≠ '\n' ∧ ((escaped q).next c).Closes rest

variable {m : Quoting} {q r : Quote} {c : Char} {cs rest : List Char}

theorem next_outside (q : Quote) : outside.next q.char = inside q := by cases q <;> rfl

theorem next_inside (h : c ≠ q.char) (h' : c ≠ '\\') : (inside q).next c = inside q := by
  rw [next, if_neg h, if_neg h']

theorem exists_next_inside (hm : m ≠ outside) (h : ∀ q : Quote, c ≠ q.char) (h' : c ≠ '\\') :
    ∃ q, m.next c = inside q := by
  cases m with
  | outside => exact absurd rfl hm
  | inside q => exact ⟨q, next_inside (h q) h'⟩
  | escaped q => exact ⟨q, rfl⟩

theorem Closes.next (h : m.Closes (c :: rest)) : (m.next c).Closes rest := by
  cases m <;> exact h.2

theorem Closes.append {front : List Char} (h : m.Closes (front ++ rest)) :
    (m.after front).Closes rest := by
  induction front generalizing m with
  | nil => exact h
  | cons c front ih => exact ih h.next

/-- Nothing but its quote and the backslash changes where the scanner stands
inside quotes. -/
theorem after_inside (h : ∀ c ∈ cs, c ≠ q.char ∧ c ≠ '\\') : (inside q).after cs = inside q := by
  induction cs with
  | nil => rfl
  | cons c rest ih =>
      obtain ⟨hc, hrest⟩ := List.forall_mem_cons.mp h
      show ((inside q).next c).after rest = inside q
      rw [next_inside hc.1 hc.2]
      exact ih hrest

theorem after_protected (q : Quote) (c : Char) (cs : List Char) :
    (inside q).after ('\\' :: c :: cs) = (inside q).after cs := by
  have hslash : (inside q).next '\\' = escaped q := by
    rw [next, if_neg (Ne.symm q.char_ne_backslash), if_pos rfl]
  show (((inside q).next '\\').next c).after cs = _
  rw [hslash]
  rfl

theorem Closes.inside_append {front : List Char} (h : (inside q).Closes (front ++ rest))
    (hfront : ∀ c ∈ front, c ≠ q.char ∧ c ≠ '\\') : (inside q).Closes rest := by
  have := h.append
  rwa [after_inside hfront] at this

theorem Closes.inside_cons (h : (inside q).Closes (c :: rest)) (hc : c ≠ q.char ∧ c ≠ '\\') :
    (inside q).Closes rest :=
  next_inside hc.1 hc.2 ▸ h.next

end Quoting

namespace DotPath

open Quoting

variable {m : Quoting} {q r : Quote} {c : Char} {cs rest : List Char}

/-! ## What is taken off -/

theorem dropBlanks_eq (cs : List Char) :
    ∃ blanks, cs = blanks ++ Text.dropBlanks cs ∧ ∀ c ∈ blanks, Text.isBlank c = true :=
  ⟨cs.takeWhile Text.isBlank, List.takeWhile_append_dropWhile.symm,
    fun c hc => List.all_eq_true.mp List.all_takeWhile c hc⟩

theorem closing?_eq {after : List Char} (h : closing? cs = some after) :
    ∃ blanks, cs = blanks ++ ']' :: after ∧ ∀ c ∈ blanks, Text.isBlank c = true := by
  obtain ⟨blanks, hcs, hblank⟩ := dropBlanks_eq cs
  unfold closing? at h
  split at h
  · next heq =>
      cases h
      exact ⟨blanks, by rw [← heq]; exact hcs, hblank⟩
  · cases h

theorem quoted?_eq {q : Char} {p : List Char × List Char} (h : quoted? q cs = some p) :
    ∃ blanks, cs = p.1 ++ q :: (blanks ++ ']' :: p.2) ∧ ∀ c ∈ blanks, Text.isBlank c = true := by
  fun_induction quoted? q cs generalizing p with
  | case1 => cases h
  | case2 c rest body after heq ih =>
      cases h
      split at heq
      · cases heq
      · obtain ⟨blanks, hrest, hblank⟩ := ih heq
        exact ⟨blanks, congrArg (fun rest => '\\' :: c :: rest) hrest, hblank⟩
  | case3 c rest heq ih₁ ih₂ =>
      obtain ⟨r, hr, rfl⟩ := Option.map_eq_some_iff.mp h
      obtain ⟨blanks, hrest, hblank⟩ := ih₂ hr
      exact ⟨blanks, congrArg ('\\' :: ·) hrest, hblank⟩
  | case4 rest =>
      obtain ⟨after, hafter, rfl⟩ := Option.map_eq_some_iff.mp h
      obtain ⟨blanks, hrest, hblank⟩ := closing?_eq hafter
      exact ⟨blanks, congrArg (q :: ·) hrest, hblank⟩
  | case5 => cases h
  | case6 c rest hne hq hn ih =>
      obtain ⟨r, hr, rfl⟩ := Option.map_eq_some_iff.mp h
      obtain ⟨blanks, hrest, hblank⟩ := ih hr
      exact ⟨blanks, congrArg (c :: ·) hrest, hblank⟩

/-! ## The reader behind the scanner's back -/

theorem ne_of_isBlank (h : Text.isBlank c = true) : c ≠ q.char ∧ c ≠ '\\' := by
  constructor
  · rintro rfl
    exact absurd h (by simp [Quote.isBlank_char])
  · rintro rfl
    exact absurd h (by decide)

theorem closes_of_closing? {after : List Char} (h : (inside q).Closes cs)
    (hafter : closing? cs = some after) : (inside q).Closes after := by
  obtain ⟨blanks, rfl, hblank⟩ := closing?_eq hafter
  have hbracket := h.inside_append fun c hc => ne_of_isBlank (hblank c hc)
  exact hbracket.inside_cons (by cases q <;> decide)

/-- The scanner does not stand inside quotes of this kind. -/
def Foreign (q : Quote) (m : Quoting) : Prop := m ≠ inside q ∧ m ≠ escaped q

theorem foreign_next (h : Foreign q m) (hc : c = q.char → m ≠ outside) : Foreign q (m.next c) := by
  cases m with
  | outside =>
      have hq : c ≠ q.char := fun heq => hc heq rfl
      rw [Quoting.next]
      split
      · next hsingle => cases q <;> simp_all [Foreign, Quote.char]
      · split
        · next hdouble => cases q <;> simp_all [Foreign, Quote.char]
        · simp [Foreign]
  | inside r =>
      have hr : r ≠ q := fun heq => h.1 (congrArg inside heq)
      rw [Quoting.next]
      split
      · simp [Foreign]
      · split <;> simp [Foreign, hr]
  | escaped r =>
      have hr : r ≠ q := fun heq => h.2 (congrArg escaped heq)
      simp [Foreign, Quoting.next, hr]

/-- No backslash stands outside quotes, and none ends them. -/
theorem next_backslash_ne_outside (h : m.Closes ('\\' :: rest)) : m.next '\\' ≠ outside := by
  cases m with
  | outside => exact absurd rfl h.1
  | inside r =>
      rw [Quoting.next, if_neg (Ne.symm r.char_ne_backslash), if_pos rfl]
      simp
  | escaped r => simp [Quoting.next]

/-- A name that is read while the scanner is outside quotes, or inside others,
ends where the scanner is inside. -/
theorem closes_of_quoted? {p : List Char × List Char} (hm : Foreign q m) (h : m.Closes cs)
    (hp : quoted? q.char cs = some p) : ∃ r, (inside r).Closes p.2 := by
  have hslash : ∀ {m : Quoting}, Foreign q m → Foreign q (m.next '\\') :=
    fun hm => foreign_next hm fun heq => absurd heq.symm q.char_ne_backslash
  fun_induction quoted? q.char cs generalizing m p with
  | case1 => cases hp
  | case2 c rest body after heq ih =>
      cases hp
      split at heq
      · cases heq
      · exact ih (p := (body, after))
          (foreign_next (hslash hm) fun _ => next_backslash_ne_outside h)
          h.next.next heq
  | case3 c rest heq ih₁ ih₂ =>
      obtain ⟨r, hr, rfl⟩ := Option.map_eq_some_iff.mp hp
      exact ih₂ (p := r) (hslash hm) h.next hr
  | case4 rest =>
      obtain ⟨after, hafter, rfl⟩ := Option.map_eq_some_iff.mp hp
      obtain ⟨r, hr⟩ : ∃ r, m.next q.char = inside r := by
        cases m with
        | outside => exact ⟨q, next_outside q⟩
        | inside r =>
            have hqr : q.char ≠ r.char := fun heq =>
              hm.1 (congrArg inside (Quote.char_inj heq.symm))
            exact ⟨r, next_inside hqr q.char_ne_backslash⟩
        | escaped r => exact ⟨r, rfl⟩
      have hrest := h.next
      rw [hr] at hrest
      exact ⟨r, closes_of_closing? hrest hafter⟩
  | case5 => cases hp
  | case6 c rest hne hq hn ih =>
      obtain ⟨r, hr, rfl⟩ := Option.map_eq_some_iff.mp hp
      exact ih (p := r) (foreign_next hm fun heq => absurd heq hq) h.next hr

/-- An unquoted name that is read while the scanner is inside quotes ends where
the scanner still is, or where a closing bracket stands. -/
theorem closes_of_name {name : List Char} (hname : ∀ c ∈ name, isNameChar c = true)
    (hm : m ≠ outside) (h : m.Closes (name ++ rest)) :
    rest.head? = some ']' ∨ ∃ m', m' ≠ outside ∧ m'.Closes rest := by
  induction name generalizing m with
  | nil => exact .inr ⟨m, hm, h⟩
  | cons c name ih =>
      obtain ⟨hc, hname⟩ := List.forall_mem_cons.mp hname
      by_cases hnext : m.next c = outside
      · cases m with
        | outside => exact absurd rfl hm
        | inside q =>
            have hc : c = q.char := by
              rw [Quoting.next] at hnext
              split at hnext
              · next heq => exact heq
              · split at hnext <;> cases hnext
            have hhead := h.1 hc
            cases name with
            | nil => exact .inl hhead
            | cons d name =>
                have hd := hname d List.mem_cons_self
                cases hhead
                cases hd
        | escaped q => cases hnext
      · exact ih hname hnext h.next

theorem sign_eq (cs : List Char) : cs = Text.sign (sign cs).1 ++ (sign cs).2 := by
  unfold sign
  split <;> rfl

theorem indexed?_eq {b : Bracket} {after : List Char} (h : indexed? cs = some (b, after)) :
    ∃ negative digits rest, cs = Text.sign negative ++ (digits ++ rest) ∧
      (∀ c ∈ digits, Text.isDigit c = true) ∧ closing? rest = some after := by
  simp only [indexed?] at h
  split at h
  · cases h
  · obtain ⟨rest, hrest, heq⟩ := Option.map_eq_some_iff.mp h
    cases heq
    refine ⟨(sign cs).1, (sign cs).2.takeWhile Text.isDigit, _, ?_, ?_, hrest⟩
    · rw [List.prefix_iff_eq_append.mp (List.takeWhile_prefix Text.isDigit)]
      exact sign_eq cs
    · exact fun c hc => List.all_eq_true.mp List.all_takeWhile c hc

theorem closes_of_bracket? {b : Bracket} {after : List Char} (h : (inside q).Closes cs)
    (hb : bracket? cs = some (b, after)) : ∃ r, (inside r).Closes after := by
  obtain ⟨blanks, hcs, hblank⟩ := dropBlanks_eq cs
  rw [hcs] at h
  have h := h.inside_append fun c hc => ne_of_isBlank (hblank c hc)
  have hquoted : ∀ {r : Quote} {rest : List Char}, Text.dropBlanks cs = r.char :: rest →
      (quoted? r.char rest).map (fun p => (Bracket.quoted p.1, p.2)) = some (b, after) →
      ∃ r, (inside r).Closes after := by
    intro r rest heq hmap
    obtain ⟨p, hp, hpair⟩ := Option.map_eq_some_iff.mp hmap
    cases hpair
    rw [heq] at h
    refine closes_of_quoted? (m := (inside q).next r.char) ?_ h.next hp
    by_cases hqr : r = q
    · rw [Quoting.next, if_pos (congrArg Quote.char hqr)]
      simp [Foreign]
    · rw [next_inside (fun heq => hqr (Quote.char_inj heq)) r.char_ne_backslash]
      simp [Foreign, Ne.symm hqr]
  unfold bracket? at hb
  split at hb
  · next rest heq => exact hquoted (r := .single) heq hb
  · next rest heq => exact hquoted (r := .double) heq hb
  · obtain ⟨negative, digits, rest, hrest, hdigits, hafter⟩ := indexed?_eq hb
    rw [hrest] at h
    have hsign := h.inside_append fun c hc => by
      obtain rfl := Text.eq_of_mem_sign hc
      cases q <;> decide
    refine ⟨q, closes_of_closing? (hsign.inside_append fun c hc => ?_) hafter⟩
    constructor
    · rintro rfl
      exact absurd (hdigits _ hc) (by cases q <;> decide)
    · rintro rfl
      exact absurd (hdigits _ hc) (by decide)

/-- Once the scanner is inside quotes where the reader is not, the reader
fails. -/
theorem readSteps_ne_ok {text : String} {point : Bool} {steps : List Step} (hm : m ≠ outside)
    (h : m.Closes cs) : readSteps text point cs ≠ .ok steps := by
  intro hok
  fun_induction readSteps text point cs generalizing m steps with
  | case1 | case3 | case4 | case6 | case9 => cases hok
  | case2 => cases m <;> first | exact hm rfl | exact h
  | case5 point rest hpoint b after hb ih =>
      obtain ⟨_, _, hok⟩ := ok_of_bind hok
      obtain ⟨more, hmore, _⟩ := ok_of_bind hok
      obtain ⟨q, hq⟩ :=
        exists_next_inside hm (c := '[') (fun q => by cases q <;> decide) (by decide)
      have hrest := h.next
      rw [hq] at hrest
      obtain ⟨r, hr⟩ := closes_of_bracket? hrest hb
      exact ih (by simp) hr hmore
  | case7 point rest hpoint ih =>
      obtain ⟨q, hq⟩ :=
        exists_next_inside hm (c := '.') (fun q => by cases q <;> decide) (by decide)
      exact ih (by simp [hq]) h.next hok
  | case8 point c rest _ _ hname name =>
      rename_i ih
      obtain ⟨more, hmore, _⟩ := ok_of_bind hok
      have hchars : ∀ d ∈ c :: nameOf rest, isNameChar d = true :=
        List.forall_mem_cons.mpr ⟨hname.2, fun d hd => List.all_eq_true.mp List.all_takeWhile d hd⟩
      have hsplit : c :: rest = (c :: nameOf rest) ++ rest.drop (nameOf rest).length := by
        rw [List.cons_append, nameOf,
          List.prefix_iff_eq_append.mp (List.takeWhile_prefix isNameChar)]
      rw [hsplit] at h
      rcases closes_of_name hchars hm h with hhead | ⟨m', hm', hrest⟩
      · obtain ⟨after, hafter⟩ := List.head?_eq_some_iff.mp hhead
        have hmore : readSteps text false (rest.drop (nameOf rest).length) = .ok more := hmore
        rw [hafter, readSteps] at hmore
        · simp at hmore
        · decide
        · decide
      · exact ih hm' hrest hmore

/-! ## Names that both read -/

/-- A name without a line end is read as it is scanned. -/
theorem quoted?_of_stringBody? {body : List Char} (h : Query.stringBody? q.char cs = some body)
    (hcs : cs = body ++ q.char :: ']' :: rest) (hbody : '\n' ∉ body) :
    quoted? q.char cs = some (body, rest) := by
  fun_induction Query.stringBody? q.char cs generalizing body with
  | case1 => cases h
  | case2 => cases h
  | case3 c more hc ih =>
      obtain ⟨tail, htail, rfl⟩ := Option.map_eq_some_iff.mp h
      cases hcs
      exact quoted?_protected hc (ih htail rfl fun hmem => hbody (.tail _ (.tail _ hmem)))
  | case4 =>
      cases h
      cases hcs
      rw [quoted?_close q.char_ne_backslash, closing?_bracket]
      rfl
  | case5 => cases h
  | case6 c more _ hq hslash ih =>
      obtain ⟨tail, htail, rfl⟩ := Option.map_eq_some_iff.mp h
      obtain ⟨hn, htailn⟩ := not_or.mp (mt List.mem_cons.mpr hbody)
      have hmore := ih htail (List.cons.inj hcs).2 htailn
      rw [quoted?_cons hslash hq (Ne.symm hn), hmore]
      rfl

/-- A quote in a name before its first line end does not close the name for the
scanner. -/
theorem after_early {body b : List Char} (h : Query.stringBody? q.char cs = some body)
    (hcs : cs = b ++ q.char :: rest) (hbody : '\n' ∈ body) (hb : '\n' ∉ b) :
    (inside q).after (b ++ [q.char]) = inside q := by
  fun_induction Query.stringBody? q.char cs generalizing body b with
  | case1 => cases h
  | case2 => cases h
  | case3 c more hc ih =>
      obtain ⟨tail, htail, rfl⟩ := Option.map_eq_some_iff.mp h
      have htailn : '\n' ∈ tail := by simpa [Ne.symm hc] using hbody
      match b with
      | [] => exact absurd (List.cons.inj hcs).1.symm q.char_ne_backslash
      | [d] =>
          cases hcs
          exact after_protected q q.char []
      | d :: e :: b =>
          cases hcs
          refine (after_protected q c (b ++ [q.char])).trans (ih htail rfl htailn ?_)
          exact fun hmem => hb (.tail _ (.tail _ hmem))
  | case4 =>
      cases h
      cases hbody
  | case5 => cases h
  | case6 c more _ hq hslash ih =>
      obtain ⟨tail, htail, rfl⟩ := Option.map_eq_some_iff.mp h
      cases b with
      | nil => exact absurd (List.cons.inj hcs).1 hq
      | cons d b =>
          obtain ⟨rfl, hmore⟩ := List.cons.inj hcs
          obtain ⟨hd, hbn⟩ := not_or.mp (mt List.mem_cons.mpr hb)
          have htailn : '\n' ∈ tail := (List.mem_cons.mp hbody).resolve_left hd
          show ((inside q).next c).after (b ++ [q.char]) = _
          rw [next_inside hq hslash]
          exact ih htail hmore htailn hbn

/-- The reader reads a quoted name as the scanner does, or it closes the name
where the scanner is still inside. -/
theorem quoted?_synced {body : List Char} {p : List Char × List Char}
    (h : (inside q).Closes cs) (hbody : Query.stringBody? q.char cs = some body)
    (hcs : cs = body ++ q.char :: ']' :: rest) (hp : quoted? q.char cs = some p) :
    p = (body, rest) ∨ (inside q).Closes p.2 := by
  by_cases hn : '\n' ∈ body
  · obtain ⟨blanks, heq, hblank⟩ := quoted?_eq hp
    have hearly := after_early hbody heq hn (newline_not_mem_of_quoted? hp)
    refine .inr ?_
    have hclose : p.1 ++ q.char :: (blanks ++ ']' :: p.2) =
        (p.1 ++ [q.char]) ++ (blanks ++ ']' :: p.2) := by simp
    rw [heq, hclose] at h
    have hrest := h.append
    rw [hearly] at hrest
    have hblanks := hrest.inside_append fun c hc => ne_of_isBlank (hblank c hc)
    exact hblanks.inside_cons (by cases q <;> decide)
  · rw [quoted?_of_stringBody? hbody hcs hn] at hp
    exact .inl (Option.some.inj hp).symm

end DotPath

end Conduit
