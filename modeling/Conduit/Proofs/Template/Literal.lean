import Conduit.Proofs.Template.Marks
import Conduit.Proofs.Template.Placeholder

/-!
# What a template prints

A template that is accepted prints its characters, with the values of its
placeholders between them, if two things hold: its line ends are line feeds, and
no comment and no tag opens in it. Else it prints something else, for a comment
or a raw text prints less than its marks, and a line end of another kind is
changed.

The parts of a template are found from left to right. What they print is
compared with the marks that were read (`Prints`): where nothing opens they are
the same, and each opening takes two marks that nothing is printed for. What is
left of the marks behind an opening is their end, so nothing is printed twice.
-/

namespace Conduit.Template

variable {texts : List String} {printed : TagSource → List Char} {ms read : List Mark}
  {chunks : List Chunk}

/-- A template without line ends other than line feeds in which no comment and
no tag opens. -/
structure IsLiteral (chunks : List Chunk) : Prop where
  noReturn : .char '\r' ∉ chunks
  noComment : ¬[.char '\x7b', .char '#'] <:+: chunks
  noTag : ¬[.char '\x7b', .char '%'] <:+: chunks

/-- The template with a text in the place of each placeholder, in order. -/
def fill : List String → List Chunk → List Char
  | texts, .char c :: rest => c :: fill texts rest
  | s :: texts, .placeholder _ :: rest => s.toList ++ fill texts rest
  | [], .placeholder _ :: rest => fill [] rest
  | _, [] => []

/-! ## What is printed -/

/-- The text of a slot. -/
def slotText (texts : List String) (n : Nat) : String := texts[n]?.getD "null"

/-- What a mark becomes where no raw text is. -/
def markChars (texts : List String) : Mark → List Char
  | .char c => [c]
  | .slot n => (slotText texts n).toList

/-- What a piece prints, given what is inserted for the slots and what the tags
print. -/
def pieceChars (texts : List String) (printed : TagSource → List Char) : Piece → List Char
  | .text cs => cs
  | .slot n => (slotText texts n).toList
  | .print source => printed source

def partChars (texts : List String) (printed : TagSource → List Char) : Part → List Char
  | .piece p => pieceChars texts printed p
  | .tag _ source => printed source

theorem fill_eq {n : Nat} (h : n + (bodies chunks).length = texts.length) :
    fill (texts.drop n) chunks = (marks n chunks).flatMap (markChars texts) := by
  induction chunks generalizing n with
  | nil => cases texts.drop n <;> rfl
  | cons k rest ih =>
      cases k with
      | char c =>
          have hrest := ih (n := n) h
          rw [marks, List.flatMap_cons, ← hrest, fill]
          rfl
      | placeholder body =>
          have hlt : n < texts.length := by
            simp only [bodies, List.length_cons] at h
            omega
          have hrest := ih (n := n + 1) (by simp only [bodies, List.length_cons] at h; omega)
          have htext : slotText texts n = texts[n] := by
            rw [slotText, List.getElem?_eq_getElem hlt]
            rfl
          rw [marks, List.flatMap_cons, ← hrest, List.drop_eq_getElem_cons hlt, fill, markChars,
            htext]

theorem partChars_textPart (h : ∀ m ∈ ms, ∃ c, m = .char c) :
    (textPart ms).flatMap (partChars texts printed) = ms.flatMap (markChars texts) := by
  have hraw : ms.flatMap rawChars = ms.flatMap (markChars texts) := by
    refine List.flatMap_congr ?_
    intro m hm
    obtain ⟨c, rfl⟩ := h m hm
    rfl
  rw [textPart]
  split
  · next hnil => rw [List.isEmpty_iff.mp hnil]; rfl
  · rw [← hraw]
    simp [partChars, pieceChars]

theorem piecesOf?_chars {ps : List Part} {pieces : List Piece} (h : piecesOf? ps = some pieces) :
    ps.flatMap (partChars texts printed) = pieces.flatMap (pieceChars texts printed) := by
  induction ps generalizing pieces with
  | nil =>
      cases h
      rfl
  | cons p rest ih =>
      rw [piecesOf?.eq_def] at h
      cases p with
      | tag words source =>
          dsimp only at h
          split at h
          · obtain ⟨more, hmore, rfl⟩ := Option.map_eq_some_iff.mp h
            rw [List.flatMap_cons, ih hmore, List.flatMap_cons]
            rfl
          · cases h
      | piece p =>
          obtain ⟨more, hmore, rfl⟩ := Option.map_eq_some_iff.mp h
          rw [List.flatMap_cons, ih hmore, List.flatMap_cons]
          rfl

/-! ## What the parts print -/

/-- No comment and no tag opens among the marks. -/
def NoOpening (ms : List Mark) : Prop :=
  ¬[.char '\x7b', .char '#'] <:+: ms ∧ ¬[.char '\x7b', .char '%'] <:+: ms

theorem noOpening_cons {m : Mark} (hcomment : m = .char '\x7b' → ms.head? ≠ some (.char '#'))
    (htag : m = .char '\x7b' → ms.head? ≠ some (.char '%')) :
    NoOpening (m :: ms) ↔ NoOpening ms := by
  rw [NoOpening, pair_infix_cons, pair_infix_cons, NoOpening]
  refine and_congr (not_congr (or_iff_right ?_)) (not_congr (or_iff_right ?_))
  · rintro ⟨rfl, hhead⟩
    exact hcomment rfl hhead
  · rintro ⟨rfl, hhead⟩
    exact htag rfl hhead

/-- The number of characters that marks become where no raw text is. -/
def size (texts : List String) (ms : List Mark) : Nat := (ms.flatMap (markChars texts)).length

theorem size_cons (m : Mark) :
    size texts (m :: ms) = (markChars texts m).length + size texts ms := by
  rw [size, List.flatMap_cons, List.length_append, size]

theorem size_append {ms' : List Mark} :
    size texts (ms ++ ms') = size texts ms + size texts ms' := by
  rw [size, List.flatMap_append, List.length_append, size, size]

theorem size_le_of_sublist (texts : List String) {ms' : List Mark} (h : ms'.Sublist ms) :
    size texts ms' ≤ size texts ms := by
  induction h with
  | slnil => exact Nat.le_refl _
  | cons m _ ih =>
      rw [size_cons]
      omega
  | cons_cons m _ ih =>
      rw [size_cons, size_cons]
      omega

/-- A raw text shows its slots no longer than what is inserted for them. -/
def IsRoomy (texts : List String) (ms : List Mark) : Prop :=
  ∀ m ∈ ms, (rawChars m).length ≤ (markChars texts m).length

theorem IsRoomy.sublist {ms' : List Mark} (h : IsRoomy texts ms) (hsub : ms'.Sublist ms) :
    IsRoomy texts ms' := fun m hm => h m (hsub.subset hm)

theorem isRoomy_of_chars (h : ∀ m ∈ ms, ∃ c, m = .char c) : IsRoomy texts ms := by
  intro m hm
  obtain ⟨c, rfl⟩ := h m hm
  exact Nat.le_refl _

theorem length_rawChars_le (h : IsRoomy texts ms) :
    (ms.flatMap rawChars).length ≤ size texts ms := by
  induction ms with
  | nil => exact Nat.le_refl _
  | cons m rest ih =>
      have hm := h m List.mem_cons_self
      have hrest := ih (h.sublist (List.sublist_cons_self m rest))
      rw [List.flatMap_cons, List.length_append, size_cons]
      omega

theorem length_textPart_le (printed : TagSource → List Char) (h : IsRoomy texts ms) :
    ((textPart ms).flatMap (partChars texts printed)).length ≤ size texts ms := by
  rw [textPart]
  split
  · exact Nat.zero_le _
  · simpa [partChars, pieceChars] using length_rawChars_le h

/-- A tag prints no more than is written in it. -/
def FitsTags (printed : TagSource → List Char) (ps : List Part) : Prop :=
  ∀ words source, .tag words source ∈ ps → (printed source).length ≤ source.chars.length

theorem FitsTags.subset {ps ps' : List Part} (h : FitsTags printed ps) (hsub : ps' ⊆ ps) :
    FitsTags printed ps' := fun words source hmem => h words source (hsub hmem)

theorem stripEnd_sublist (strip : Bool) (ms : List Mark) : (stripEnd strip ms).Sublist ms := by
  unfold stripEnd
  split
  · have hsub := (List.dropWhile_sublist isBlankMark (l := ms.reverse)).reverse
    rwa [List.reverse_reverse] at hsub
  · exact List.Sublist.refl _

/-- The text before a mark, with or without the blanks at its end. -/
theorem length_before_le (texts : List String) (printed : TagSource → List Char) (strip : Bool)
    (h : ∀ m ∈ read, ∃ c, m = .char c) :
    ((textPart (stripEnd strip read.reverse)).flatMap (partChars texts printed)).length ≤
      size texts read.reverse := by
  have hsub := stripEnd_sublist strip read.reverse
  have hroomy : IsRoomy texts read.reverse :=
    isRoomy_of_chars fun m hm => h m (List.mem_reverse.mp hm)
  exact Nat.le_trans (length_textPart_le printed (hroomy.sublist hsub))
    (size_le_of_sublist texts hsub)

/-- Where nothing opens, the parts print the marks one after another; else they
print less than that. -/
structure Prints (texts : List String) (printed : TagSource → List Char) (read ms : List Mark)
    (ps : List Part) : Prop where
  exact : NoOpening ms → ps.flatMap (partChars texts printed) =
    read.reverse.flatMap (markChars texts) ++ ms.flatMap (markChars texts)
  less : ¬NoOpening ms → IsRoomy texts ms → FitsTags printed ps →
    (ps.flatMap (partChars texts printed)).length < size texts read.reverse + size texts ms

theorem Prints.le {ps : List Part} (h : Prints texts printed read ms ps)
    (hroomy : IsRoomy texts ms) (hfits : FitsTags printed ps) :
    (ps.flatMap (partChars texts printed)).length ≤ size texts read.reverse + size texts ms := by
  by_cases hopen : NoOpening ms
  · rw [h.exact hopen, List.length_append]
    exact Nat.le_refl _
  · exact Nat.le_of_lt (h.less hopen hroomy hfits)

theorem Prints.nil (hread : ∀ m ∈ read, ∃ c, m = .char c) :
    Prints texts printed read [] (textPart read.reverse) := by
  refine ⟨fun _ => ?_, fun hopen => ?_⟩
  · rw [partChars_textPart fun m hm => hread m (List.mem_reverse.mp hm)]
    simp
  · exact absurd ⟨by simp, by simp⟩ hopen

theorem Prints.slot {n : Nat} {rest : List Mark} {more : List Part}
    (hread : ∀ m ∈ read, ∃ c, m = .char c) (hmore : Prints texts printed [] rest more) :
    Prints texts printed read (.slot n :: rest)
      (textPart read.reverse ++ .piece (.slot n) :: more) := by
  have hcons : NoOpening (.slot n :: rest) ↔ NoOpening rest :=
    noOpening_cons (by simp) (by simp)
  have hbefore : (textPart read.reverse).flatMap (partChars texts printed) =
      read.reverse.flatMap (markChars texts) :=
    partChars_textPart fun m hm => hread m (List.mem_reverse.mp hm)
  refine ⟨fun hopen => ?_, fun hopen hroomy hfits => ?_⟩
  · rw [List.flatMap_append, List.flatMap_cons, hbefore, hmore.exact (hcons.mp hopen)]
    rfl
  · have hless := hmore.less (fun h => hopen (hcons.mpr h))
      (hroomy.sublist (List.sublist_cons_self _ _))
      (hfits.subset fun _ hp => List.mem_append_right _ (List.mem_cons_of_mem _ hp))
    have hnil : size texts ([] : List Mark).reverse = 0 := rfl
    rw [List.flatMap_append, List.flatMap_cons, hbefore, size_cons]
    simp only [List.length_append, size, partChars, pieceChars, markChars] at hless hnil ⊢
    omega

/-- A character that opens nothing is kept for the text before the next mark of
another kind. -/
theorem Prints.char {c : Char} {rest : List Mark} {ps : List Part}
    (hcons : NoOpening (.char c :: rest) ↔ NoOpening rest)
    (h : Prints texts printed (.char c :: read) rest ps) :
    Prints texts printed read (.char c :: rest) ps := by
  refine ⟨fun hopen => ?_, fun hopen hroomy hfits => ?_⟩
  · rw [h.exact (hcons.mp hopen), List.reverse_cons, List.flatMap_append, List.append_assoc]
    rfl
  · have hless := h.less (fun hrest => hopen (hcons.mpr hrest))
      (hroomy.sublist (List.sublist_cons_self _ _)) hfits
    rw [List.reverse_cons, size_append] at hless
    rw [size_cons]
    have hone : size texts [.char c] = (markChars texts (.char c)).length := by
      rw [size_cons]
      rfl
    omega

/-- A comment, a raw text or a tag prints less than its marks. -/
theorem Prints.opening (strip : Bool) (middle : List Part) {c : Char} {after rest : List Mark}
    {more : List Part} (hread : ∀ m ∈ read, ∃ c, m = .char c) (hc : c = '#' ∨ c = '%')
    (hafter : after.Sublist rest) (hmore : Prints texts printed [] after more)
    (hmiddle : IsRoomy texts rest → FitsTags printed middle →
      (middle.flatMap (partChars texts printed)).length + size texts after ≤ size texts rest) :
    Prints texts printed read (.char '\x7b' :: .char c :: rest)
      (textPart (stripEnd strip read.reverse) ++ middle ++ more) := by
  have hopen : ¬NoOpening (.char '\x7b' :: .char c :: rest) := by
    rintro ⟨hcomment, htag⟩
    rcases hc with rfl | rfl
    · exact hcomment (pair_infix_cons.mpr (.inl ⟨rfl, rfl⟩))
    · exact htag (pair_infix_cons.mpr (.inl ⟨rfl, rfl⟩))
  refine ⟨fun h => absurd h hopen, fun _ hroomy hfits => ?_⟩
  have hrest : IsRoomy texts rest :=
    hroomy.sublist ((List.sublist_cons_self _ _).trans (List.sublist_cons_self _ _))
  have hbefore := length_before_le texts printed strip hread
  have hle := hmore.le (hrest.sublist hafter) (hfits.subset (List.subset_append_right _ _))
  have hparts := hmiddle hrest (hfits.subset fun _ hp =>
    List.mem_append_left _ (List.mem_append_right _ hp))
  simp only [List.flatMap_append, List.length_append, size_cons, markChars, List.length_cons,
    List.length_nil] at hle ⊢
  have hnil : size texts ([] : List Mark).reverse = 0 := rfl
  omega

/-- A tag prints no more than its marks, if it prints no more than is written
in it. -/
theorem length_tag_le {words : List Word} {rest after : List Mark} (hafter : after <:+ rest)
    (hroomy : IsRoomy texts rest) (hfits : FitsTags printed [.tag words (sourceOf rest after)]) :
    (([.tag words (sourceOf rest after)] : List Part).flatMap (partChars texts printed)).length +
      size texts after ≤ size texts rest := by
  obtain ⟨tag, rfl⟩ := hafter
  have htake : (tag ++ after).take ((tag ++ after).length - after.length) = tag := by simp
  have hprinted := hfits _ _ List.mem_cons_self
  have hraw := length_rawChars_le (hroomy.sublist (List.sublist_append_left tag after))
  rw [sourceOf, htake] at hprinted ⊢
  rw [size_append]
  simp only [List.flatMap_cons, List.flatMap_nil, List.append_nil, partChars] at hprinted ⊢
  omega

theorem parts_prints {fuel : Nat} {ps : List Part} (hfuel : ms.length ≤ fuel)
    (hread : ∀ m ∈ read, ∃ c, m = .char c) (h : parts fuel read ms = some ps) :
    Prints texts printed read ms ps := by
  have hnone : ∀ m ∈ ([] : List Mark), ∃ c, m = .char c := fun m hm => by cases hm
  fun_induction parts fuel read ms generalizing ps with
  | case1 read ms =>
      cases h
      obtain rfl := List.length_eq_zero_iff.mp (Nat.le_zero.mp hfuel)
      exact .nil hread
  | case2 fuel read =>
      cases h
      exact .nil hread
  | case3 fuel read n rest ih =>
      obtain ⟨more, hmore, h⟩ := Option.bind_eq_some_iff.mp h
      cases h
      exact .slot hread (ih (Nat.le_of_succ_le_succ hfuel) hnone hmore)
  | case4 fuel read rest => cases h
  | case5 fuel read rest strip inner hcontrol jp hempty =>
      rename_i ih
      obtain ⟨after, hafter, h⟩ := Option.bind_eq_some_iff.mp h
      cases hafter
      obtain ⟨more, hmore, h⟩ := Option.bind_eq_some_iff.mp h
      cases h
      have hprints := ih [] (Nat.zero_le _) hnone hmore
      have hopening := Prints.opening strip [] hread (.inl rfl)
        (List.nil_sublist rest) hprints fun _ _ => Nat.zero_le _
      rwa [List.append_nil] at hopening
  | case6 fuel read rest strip inner hcontrol jp hne =>
      rename_i ih
      obtain ⟨after, hafter, h⟩ := Option.bind_eq_some_iff.mp h
      obtain ⟨more, hmore, h⟩ := Option.bind_eq_some_iff.mp h
      cases h
      have hsuffix : after <:+ rest := by
        have hinner := control_suffix rest
        rw [hcontrol] at hinner
        exact (afterComment?_suffix hafter).trans hinner
      have hlength : after.length ≤ fuel := by
        have := hsuffix.length_le
        simp only [List.length_cons] at hfuel
        omega
      have hprints := ih after hlength hnone hmore
      have hopening := Prints.opening strip [] hread (.inl rfl)
        hsuffix.sublist hprints fun _ _ => by
          simpa using size_le_of_sublist texts hsuffix.sublist
      rwa [List.append_nil] at hopening
  | case7 fuel read rest before =>
      cases h
      have hmore : Prints texts printed [] [] [] := .nil hnone
      have hopening := Prints.opening (control rest).1 [] hread (.inr rfl)
        (List.nil_sublist rest) hmore fun _ _ => Nat.zero_le _
      rwa [List.append_nil, List.append_nil] at hopening
  | case8 fuel read rest before inner hne hstart =>
      rename_i ih
      obtain ⟨⟨body, after⟩, hbody, h⟩ := Option.bind_eq_some_iff.mp h
      obtain ⟨more, hmore, h⟩ := Option.bind_eq_some_iff.mp h
      cases h
      have hinner := rawStart?_suffix hstart
      obtain ⟨between, rfl⟩ := rawBody?_split hbody
      have hafter : after <:+ rest :=
        List.IsSuffix.trans ⟨body ++ between, by simp⟩ hinner
      have hlength : after.length ≤ fuel := by
        have := hafter.length_le
        simp only [List.length_cons] at hfuel
        omega
      have hprints := ih after hlength hnone hmore
      refine Prints.opening _ _ hread (.inr rfl) hafter.sublist hprints fun hroomy _ => ?_
      have hsub := stripEnd_sublist (rawStrips (body ++ (between ++ after))) body
      have hbodySub : body.Sublist rest := (List.sublist_append_left _ _).trans hinner.sublist
      have hmiddle := length_textPart_le printed (hroomy.sublist (hsub.trans hbodySub))
      have hstrip := size_le_of_sublist texts hsub
      have htotal := size_le_of_sublist texts hinner.sublist
      rw [size_append, size_append] at htotal
      omega
  | case9 fuel read rest before hstart inner =>
      rename_i ih
      obtain ⟨⟨words, after⟩, hwords, h⟩ := Option.bind_eq_some_iff.mp h
      obtain ⟨more, hmore, h⟩ := Option.bind_eq_some_iff.mp h
      cases h
      have hinner : inner <:+ rest := control_suffix rest
      have hafter : after <:+ inner := scan_suffix hwords
      have hlength : after.length ≤ fuel := by
        have := (hafter.trans hinner).length_le
        simp only [List.length_cons] at hfuel
        omega
      have hprints := ih after hlength hnone hmore
      have hopening := Prints.opening (control rest).1 [.tag words (sourceOf inner after)] hread
        (.inr rfl) (hafter.trans hinner).sublist hprints fun hroomy hfits =>
          Nat.le_trans (length_tag_le hafter (hroomy.sublist hinner.sublist) hfits)
            (size_le_of_sublist texts hinner.sublist)
      simpa using hopening
  | case10 fuel read m rest hslot hdouble hcomment htag ih =>
      obtain ⟨c, rfl⟩ : ∃ c, m = .char c := by
        cases m with
        | char c => exact ⟨c, rfl⟩
        | slot n => exact (hslot n rfl).elim
      have hread' : ∀ m ∈ .char c :: read, ∃ c, m = .char c :=
        List.forall_mem_cons.mpr ⟨⟨c, rfl⟩, hread⟩
      refine .char (noOpening_cons (fun hc hhead => ?_) (fun hc hhead => ?_))
        (ih (Nat.le_of_succ_le_succ hfuel) hread' h)
      · obtain ⟨more, hmore⟩ := List.head?_eq_some_iff.mp hhead
        exact hcomment more hc hmore
      · obtain ⟨more, hmore⟩ := List.head?_eq_some_iff.mp hhead
        exact htag more hc hmore

/-! ## Line ends -/

theorem joinLines_eq_self (h : .char '\r' ∉ ms) : joinLines ms = ms := by
  fun_induction joinLines ms with
  | case1 rest ih => exact absurd List.mem_cons_self h
  | case2 rest hne ih => exact absurd List.mem_cons_self h
  | case3 m rest hpair hreturn ih => rw [ih fun hmem => h (List.mem_cons_of_mem _ hmem)]
  | case4 => rfl

/-- What is printed tells that a line end was changed. -/
theorem joinLines_chars_ne (h : .char '\r' ∈ ms) :
    (joinLines ms).flatMap (markChars texts) ≠ ms.flatMap (markChars texts) := by
  fun_induction joinLines ms with
  | case1 rest ih => exact fun heq => absurd (List.cons.inj heq).1 (by decide)
  | case2 rest hne ih => exact fun heq => absurd (List.cons.inj heq).1 (by decide)
  | case3 m rest hpair hreturn ih =>
      rw [List.flatMap_cons, List.flatMap_cons, ne_eq, List.append_cancel_left_eq]
      refine ih ?_
      rcases List.mem_cons.mp h with rfl | hmem
      · exact (hreturn rfl).elim
      · exact hmem
  | case4 => cases h

theorem size_joinLines_le (texts : List String) (ms : List Mark) :
    size texts (joinLines ms) ≤ size texts ms := by
  fun_induction joinLines ms with
  | case1 rest ih =>
      simp only [size_cons, markChars, List.length_cons, List.length_nil]
      omega
  | case2 rest hne ih =>
      simp only [size_cons, markChars, List.length_cons, List.length_nil]
      omega
  | case3 m rest hpair hreturn ih =>
      rw [size_cons, size_cons]
      omega
  | case4 => exact Nat.le_refl _

theorem head?_joinLines {c : Char} (hreturn : c ≠ '\r') (hfeed : c ≠ '\n') :
    (joinLines ms).head? = some (.char c) ↔ ms.head? = some (.char c) := by
  fun_induction joinLines ms with
  | case1 rest ih => simp [hreturn.symm, hfeed.symm]
  | case2 rest hne ih => simp [hreturn.symm, hfeed.symm]
  | case3 m rest hpair hne ih => simp
  | case4 => simp

theorem noOpening_joinLines : NoOpening (joinLines ms) ↔ NoOpening ms := by
  have hpair : ∀ {c : Char}, c ≠ '\r' → c ≠ '\n' →
      ([.char '\x7b', .char c] <:+: joinLines ms ↔ [.char '\x7b', .char c] <:+: ms) := by
    intro c hreturn hfeed
    fun_induction joinLines ms with
    | case1 rest ih => simp [pair_infix_cons, ih]
    | case2 rest hne ih => simp [pair_infix_cons, ih]
    | case3 m rest hcrlf hcr ih =>
        rw [pair_infix_cons, pair_infix_cons, ih, head?_joinLines hreturn hfeed]
    | case4 => exact Iff.rfl
  rw [NoOpening, hpair (by decide) (by decide), hpair (by decide) (by decide), NoOpening]

theorem slot_mem_of_mem_joinLines {n : Nat} (h : .slot n ∈ joinLines ms) : .slot n ∈ ms := by
  fun_induction joinLines ms with
  | case1 rest ih => simpa using ih (by simpa using h)
  | case2 rest hne ih => simpa using ih (by simpa using h)
  | case3 m rest hpair hreturn ih =>
      rcases List.mem_cons.mp h with rfl | hmem
      · exact List.mem_cons_self
      · exact List.mem_cons_of_mem _ (ih hmem)
  | case4 => cases h

/-! ## Chunks as marks -/

theorem head?_marks {c : Char} {n : Nat} :
    (marks n chunks).head? = some (.char c) ↔ chunks.head? = some (.char c) := by
  cases chunks with
  | nil => exact Iff.of_eq (by simp [marks])
  | cons k rest => cases k <;> simp [marks]

theorem pair_infix_marks {a b : Char} {n : Nat} :
    [.char a, .char b] <:+: marks n chunks ↔ [.char a, .char b] <:+: chunks := by
  induction chunks generalizing n with
  | nil => simp [marks]
  | cons k rest ih =>
      cases k with
      | char c => simp [marks, pair_infix_cons, head?_marks, ih]
      | placeholder body => simp [marks, pair_infix_cons, ih]

theorem char_mem_marks {c : Char} {n : Nat} : .char c ∈ marks n chunks ↔ .char c ∈ chunks := by
  induction chunks generalizing n with
  | nil => simp [marks]
  | cons k rest ih => cases k <;> simp [marks, ih]

theorem isLiteral_iff {n : Nat} :
    IsLiteral chunks ↔ .char '\r' ∉ marks n chunks ∧ NoOpening (marks n chunks) := by
  rw [char_mem_marks, NoOpening, pair_infix_marks, pair_infix_marks]
  exact ⟨fun h => ⟨h.noReturn, h.noComment, h.noTag⟩, fun h => ⟨h.1, h.2.1, h.2.2⟩⟩

/-- The slots are numbered like the bodies of their placeholders. -/
theorem lt_of_slot_mem {n k : Nat} (h : .slot k ∈ marks n chunks) :
    k < n + (bodies chunks).length := by
  induction chunks generalizing n with
  | nil => cases h
  | cons k' rest ih =>
      cases k' with
      | char c =>
          rw [marks] at h
          exact ih (by simpa using h)
      | placeholder body =>
          rw [bodies, List.length_cons]
          rcases List.mem_cons.mp h with heq | hmem
          · cases heq
            omega
          · have := ih hmem
            omega

/-- No inserted text is shorter than what a raw text would show in its place. -/
def HasRoom (texts : List String) : Prop :=
  ∀ (n : Nat) (h : n < texts.length), (rawChars (.slot n)).length ≤ texts[n].length

theorem HasRoom.isRoomy (h : HasRoom texts) (hlength : (bodies chunks).length = texts.length) :
    IsRoomy texts (joinLines (marks 0 chunks)) := by
  intro m hm
  cases m with
  | char c => exact Nat.le_refl _
  | slot n =>
      have hlt := lt_of_slot_mem (slot_mem_of_mem_joinLines hm)
      have hn : n < texts.length := by omega
      have hroom := h n hn
      rwa [markChars, slotText, List.getElem?_eq_getElem hn, Option.getD_some, String.length_toList]

/-! ## Literal templates -/

/-- The parts of a template, with its line ends made line feeds, print its
characters if it is literal. -/
theorem IsLiteral.prints {ps : List Part} (h : IsLiteral chunks)
    (hprints : Prints texts printed [] (joinLines (marks 0 chunks)) ps) :
    ps.flatMap (partChars texts printed) = (marks 0 chunks).flatMap (markChars texts) := by
  obtain ⟨hreturn, hopen⟩ := (isLiteral_iff (n := 0)).mp h
  rw [joinLines_eq_self hreturn] at hprints
  exact hprints.exact hopen

/-- They print something else if it is not: a line end was changed, or less is
printed than there is. -/
theorem prints_ne_of_not_literal {ps : List Part} (h : ¬IsLiteral chunks)
    (hroomy : IsRoomy texts (joinLines (marks 0 chunks))) (hfits : FitsTags printed ps)
    (hprints : Prints texts printed [] (joinLines (marks 0 chunks)) ps) :
    ps.flatMap (partChars texts printed) ≠ (marks 0 chunks).flatMap (markChars texts) := by
  rw [isLiteral_iff (n := 0), not_and_or, not_not] at h
  by_cases hopen : NoOpening (marks 0 chunks)
  · rw [hprints.exact (noOpening_joinLines.mpr hopen)]
    exact joinLines_chars_ne (h.resolve_right fun hnot => hnot hopen)
  · have hless := hprints.less (fun hnot => hopen (noOpening_joinLines.mp hnot)) hroomy hfits
    have hle := size_joinLines_le texts (marks 0 chunks)
    have hnil : size texts ([] : List Mark).reverse = 0 := rfl
    intro hchars
    have hsize := congrArg List.length hchars
    simp only [size] at hless hle hnil
    omega

end Conduit.Template
