import Conduit.Template

/-!
# What is left of a template's marks

A rule that reads marks gives back those after what it has read. These are the
end of the marks that it began with, and what a raw text or a tag took up stands
before them.
-/

namespace Conduit.Template

variable {ms : List Mark}

/-! ## Comments and raw texts -/

theorem control_suffix (ms : List Mark) : (control ms).2 <:+ ms := by
  unfold control
  split
  · exact List.suffix_cons _ _
  · exact List.suffix_cons _ _
  · exact List.suffix_refl _

theorem dropBlankMarks_suffix (ms : List Mark) : dropBlankMarks ms <:+ ms :=
  List.dropWhile_suffix _

theorem expect?_suffix {cs : List Char} {rest : List Mark} (h : expect? cs ms = some rest) :
    rest <:+ ms := by
  fun_induction expect? cs ms with
  | case1 ms =>
      cases h
      exact List.suffix_refl _
  | case2 cs d rest ih => exact (ih h).trans (List.suffix_cons _ _)
  | case3 => cases h
  | case4 => cases h

theorem commentEnd?_suffix {after : List Mark} (h : commentEnd? ms = some after) :
    after <:+ ms := by
  unfold commentEnd? at h
  split at h
  · cases h
    exact ⟨[_, _, _], rfl⟩
  · cases h
    exact (dropBlankMarks_suffix _).trans ⟨[_, _, _], rfl⟩
  · cases h
    exact ⟨[_, _], rfl⟩
  · cases h

theorem afterComment?_suffix {after : List Mark} (h : afterComment? ms = some after) :
    after <:+ ms := by
  fun_induction afterComment? ms with
  | case1 => cases h
  | case2 m rest after' hend =>
      cases h
      exact commentEnd?_suffix hend
  | case3 m rest hend ih => exact (ih h).trans (List.suffix_cons _ _)

theorem rawStart?_suffix {after : List Mark} (h : rawStart? ms = some after) : after <:+ ms := by
  unfold rawStart? at h
  obtain ⟨rest, hrest, h⟩ := Option.bind_eq_some_iff.mp h
  have hsuffix : dropBlankMarks rest <:+ ms := (dropBlankMarks_suffix rest).trans
    ((expect?_suffix hrest).trans ((dropBlankMarks_suffix _).trans (control_suffix ms)))
  refine List.IsSuffix.trans ?_ hsuffix
  split at h
  · next heq =>
      cases h
      rw [heq]
      exact (dropBlankMarks_suffix _).trans ⟨[_, _, _], rfl⟩
  · next heq =>
      cases h
      rw [heq]
      exact ⟨[_, _], rfl⟩
  · cases h

theorem afterEnd?_suffix {after : List Mark} (h : Word.afterEnd? ms = some after) :
    after <:+ ms := by
  unfold Word.afterEnd? at h
  split at h
  · cases h
    exact ⟨[_, _, _], rfl⟩
  · cases h
    exact (List.drop_suffix _ _).trans ⟨[_, _, _], rfl⟩
  · cases h
    exact ⟨[_, _], rfl⟩
  · cases h

theorem rawEnd?_suffix {strip : Bool} {after : List Mark} (h : rawEnd? ms = some (strip, after)) :
    after <:+ ms := by
  unfold rawEnd? at h
  split at h
  · next rest =>
      obtain ⟨inner, hinner, h⟩ := Option.bind_eq_some_iff.mp h
      obtain ⟨last, hlast, h⟩ := Option.bind_eq_some_iff.mp h
      cases h
      have hrest : inner <:+ rest := (expect?_suffix hinner).trans
        ((dropBlankMarks_suffix _).trans (control_suffix rest))
      exact (afterEnd?_suffix hlast).trans ((dropBlankMarks_suffix _).trans
        (hrest.trans ⟨[_, _], rfl⟩))
  · cases h

/-- A raw text and what is left after it stand one after another. -/
theorem rawBody?_split {body after : List Mark} (h : rawBody? ms = some (body, after)) :
    ∃ between, ms = body ++ (between ++ after) := by
  fun_induction rawBody? ms generalizing body with
  | case1 => cases h
  | case2 m rest strip after' hend =>
      cases h
      obtain ⟨between, hbetween⟩ := rawEnd?_suffix hend
      refine ⟨between, ?_⟩
      rw [stripEnd]
      split <;> exact hbetween.symm
  | case3 m rest hend ih =>
      obtain ⟨⟨body', after'⟩, hbody, heq⟩ := Option.map_eq_some_iff.mp h
      cases heq
      obtain ⟨between, rfl⟩ := ih hbody
      exact ⟨between, rfl⟩

/-! ## Tags -/

theorem afterString?_suffix {q : Char} {after : List Mark}
    (h : Word.afterString? q ms = some after) : after <:+ ms := by
  fun_induction Word.afterString? q ms with
  | case1 => cases h
  | case2 => cases h
  | case3 c rest hescape ih => exact (ih h).trans ⟨[_, _], rfl⟩
  | case4 n rest ih => exact (ih h).trans ⟨[_, _], rfl⟩
  | case5 rest hchar hslot =>
      cases h
      exact List.suffix_cons _ _
  | case6 m rest hchar hslot hend ih => exact (ih h).trans (List.suffix_cons _ _)

theorem scan_suffix {fuel : Nat} {afterPoint : Bool} {opened : List String} {words : List Word}
    {after : List Mark} (h : Word.scan fuel afterPoint opened ms = some (words, after)) :
    after <:+ ms := by
  induction fuel generalizing afterPoint opened ms words with
  | zero => cases h
  | succ fuel ih =>
      -- all words but the last leave what the rest of the tag leaves
      have hnext : ∀ {point stack rest} {f : List Word × List Mark → List Word × List Mark},
          (Word.scan fuel point stack rest).map f = some (words, after) → (∀ p, (f p).2 = p.2) →
          rest <:+ ms → after <:+ ms := by
        intro point stack rest f hmap hf hrest
        obtain ⟨⟨ws, left⟩, hscan, heq⟩ := Option.map_eq_some_iff.mp hmap
        obtain rfl : left = after := (hf (ws, left)).symm.trans (congrArg Prod.snd heq)
        exact (ih hscan).trans hrest
      unfold Word.scan at h
      split at h
      · next rest hend =>
          cases h
          split at hend
          · exact afterEnd?_suffix hend
          · cases hend
      · split at h
        · cases h
        · exact hnext h (fun _ => rfl) (List.suffix_cons _ _)
        · next c rest =>
            split at h
            · exact (ih h).trans (List.suffix_cons _ _)
            · dsimp only at h
              generalize (if afterPoint = true then 0 else Word.floatRun _) = length at h
              split at h
              · exact hnext h (fun _ => rfl) (List.drop_suffix _ _)
              · split at h
                · exact hnext h (fun _ => rfl) (List.drop_suffix _ _)
                · split at h
                  · split at h
                    · cases h
                    · exact hnext h (fun _ => rfl) (List.drop_suffix _ _)
                  · split at h
                    · obtain ⟨left, hleft, h⟩ := Option.bind_eq_some_iff.mp h
                      exact hnext h (fun _ => rfl)
                        ((afterString?_suffix hleft).trans (List.suffix_cons _ _))
                    · obtain ⟨sign, -, h⟩ := Option.bind_eq_some_iff.mp h
                      obtain ⟨stack, -, h⟩ := Option.bind_eq_some_iff.mp h
                      obtain ⟨⟨ws, left⟩, hscan, h⟩ := Option.bind_eq_some_iff.mp h
                      cases h
                      exact (ih hscan).trans (List.drop_suffix _ _)

end Conduit.Template
