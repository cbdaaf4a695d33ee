import Conduit.Proofs.Path.Quoting
import Conduit.Template
import Mathlib.Data.List.Forall2

/-!
# How a template is cut

A template is cut into single characters and placeholders, in one way only: a
placeholder begins at the first pair of opening braces that some pair of closing
braces follows, and ends at the nearest such pair.
-/

namespace Conduit.Template

/-- A character of a template, or a placeholder with what stands between its
braces. -/
inductive Chunk where
  | char (c : Char)
  | placeholder (body : List Char)

def Chunk.written : Chunk → List Char
  | .char c => [c]
  | .placeholder body => '\x7b' :: '\x7b' :: (body ++ ['\x7d', '\x7d'])

def written (chunks : List Chunk) : List Char := chunks.flatMap Chunk.written

def bodies : List Chunk → List (List Char)
  | [] => []
  | .char _ :: rest => bodies rest
  | .placeholder body :: rest => body :: bodies rest

/-- A pair of closing braces is in the text. -/
def Closes (cs : List Char) : Prop := ['\x7d', '\x7d'] <:+: cs

/-- A placeholder ends at the nearest closing braces, and a character begins
none. -/
def IsCut : List Chunk → Prop
  | [] => True
  | .char c :: rest =>
    (∀ after, c :: written rest = '\x7b' :: '\x7b' :: after → ¬Closes after) ∧ IsCut rest
  | .placeholder body :: rest => ¬Closes (body ++ ['\x7d']) ∧ IsCut rest

variable {cs body after : List Char} {chunks : List Chunk}

/-! ## Closing braces -/

/-- Two neighbours in a list stand at its front or behind its first element. -/
theorem pair_infix_cons {α : Type} {a b c : α} {l : List α} :
    [a, b] <:+: c :: l ↔ (a = c ∧ l.head? = some b) ∨ [a, b] <:+: l := by
  have hfront : [a, b] <+: c :: l ↔ a = c ∧ l.head? = some b := by
    rw [List.cons_prefix_cons, List.head?_eq_some_iff]
    refine and_congr_right fun _ => ⟨fun ⟨rest, hrest⟩ => ⟨rest, hrest.symm⟩, ?_⟩
    rintro ⟨rest, rfl⟩
    exact ⟨rest, rfl⟩
  rw [List.infix_cons_iff, hfront]

theorem closes_cons {c : Char} :
    Closes (c :: cs) ↔ (c = '\x7d' ∧ cs.head? = some '\x7d') ∨ Closes cs := by
  rw [Closes, pair_infix_cons, eq_comm, Closes]

theorem not_closes_nil : ¬Closes [] := fun h => by cases List.infix_nil.mp h

theorem untilClose?_eq_some (h : untilClose? cs = some (body, after)) :
    cs = body ++ '\x7d' :: '\x7d' :: after ∧ ¬Closes (body ++ ['\x7d']) := by
  fun_induction untilClose? cs generalizing body with
  | case1 rest =>
      cases h
      refine ⟨rfl, ?_⟩
      rw [List.nil_append, closes_cons]
      rintro (⟨_, hhead⟩ | hnil)
      · cases hhead
      · exact not_closes_nil hnil
  | case2 c rest hne ih =>
      obtain ⟨p, hp, heq⟩ := Option.map_eq_some_iff.mp h
      cases heq
      obtain ⟨rfl, hclose⟩ := ih hp
      refine ⟨rfl, ?_⟩
      rw [List.cons_append, closes_cons]
      rintro (⟨rfl, hhead⟩ | htail)
      · cases hbody : p.1 with
        | nil => exact hne _ rfl (by rw [hbody]; rfl)
        | cons d more =>
            rw [hbody] at hhead
            cases hhead
            exact hne _ rfl (by rw [hbody]; rfl)
      · exact hclose htail
  | case3 => cases h

theorem untilClose?_eq_none (h : untilClose? cs = none) : ¬Closes cs := by
  fun_induction untilClose? cs with
  | case1 rest => cases h
  | case2 c rest hne ih =>
      rw [closes_cons]
      rintro (⟨rfl, hhead⟩ | htail)
      · obtain ⟨more, rfl⟩ := List.head?_eq_some_iff.mp hhead
        exact hne more rfl rfl
      · exact ih (Option.map_eq_none_iff.mp h) htail
  | case3 => exact not_closes_nil

/-- The nearest closing braces are where a body without such ends. -/
theorem body_unique {body' after' : List Char} (h : ¬Closes (body ++ ['\x7d']))
    (h' : ¬Closes (body' ++ ['\x7d']))
    (heq : body ++ '\x7d' :: '\x7d' :: after = body' ++ '\x7d' :: '\x7d' :: after') :
    body = body' ∧ after = after' := by
  induction body generalizing body' with
  | nil =>
      cases body' with
      | nil =>
          cases heq
          exact ⟨rfl, rfl⟩
      | cons d more =>
          refine absurd ?_ h'
          rw [List.cons_append, closes_cons]
          cases more with
          | nil => cases heq; exact .inl ⟨rfl, rfl⟩
          | cons e more => cases heq; exact .inl ⟨rfl, rfl⟩
  | cons c rest ih =>
      rw [List.cons_append, closes_cons, not_or] at h
      cases body' with
      | nil =>
          refine absurd ?_ h.1
          cases rest with
          | nil => cases heq; exact ⟨rfl, rfl⟩
          | cons e more => cases heq; exact ⟨rfl, rfl⟩
      | cons d more =>
          rw [List.cons_append, closes_cons, not_or] at h'
          obtain ⟨rfl, hrest⟩ := List.cons.inj heq
          obtain ⟨rfl, rfl⟩ := ih h.2 h'.2 hrest
          exact ⟨rfl, rfl⟩

/-! ## Cuts -/

theorem written_cons (k : Chunk) (rest : List Chunk) :
    written (k :: rest) = k.written ++ written rest := List.flatMap_cons

theorem written_placeholder (body : List Char) (rest : List Chunk) :
    written (.placeholder body :: rest) =
      '\x7b' :: '\x7b' :: (body ++ '\x7d' :: '\x7d' :: written rest) := by
  rw [written_cons, Chunk.written]
  simp

/-- A text is cut in one way only. -/
theorem IsCut.unique {chunks' : List Chunk} (h : IsCut chunks) (h' : IsCut chunks')
    (heq : written chunks = written chunks') : chunks = chunks' := by
  have hclash : ∀ {c : Char} {rest rest' : List Chunk} {body : List Char},
      IsCut (.char c :: rest) →
      c :: written rest = '\x7b' :: '\x7b' :: (body ++ '\x7d' :: '\x7d' :: written rest') →
        False := by
    intro c rest rest' body hcut heq
    exact hcut.1 _ heq ⟨body, written rest', by simp⟩
  induction chunks generalizing chunks' with
  | nil =>
      cases chunks' with
      | nil => rfl
      | cons k rest => cases k <;> cases heq
  | cons k rest ih =>
      cases k with
      | char c =>
          cases chunks' with
          | nil => cases heq
          | cons k' rest' =>
              cases k' with
              | char c' =>
                  obtain ⟨rfl, hrest⟩ := List.cons.inj heq
                  rw [ih h.2 h'.2 hrest]
              | placeholder body =>
                  rw [written_placeholder] at heq
                  exact (hclash h heq).elim
      | placeholder body =>
          rw [written_placeholder] at heq
          cases chunks' with
          | nil => cases heq
          | cons k' rest' =>
              cases k' with
              | char c' => exact (hclash h' heq.symm).elim
              | placeholder body' =>
                  rw [written_placeholder] at heq
                  simp only [List.cons.injEq, true_and] at heq
                  obtain ⟨rfl, hrest⟩ := body_unique h.1 h'.1 heq
                  rw [ih h.2 h'.2 hrest]

/-- The marks of chunks, with their placeholders numbered from `n` on. -/
def marks : Nat → List Chunk → List Mark
  | _, [] => []
  | n, .char c :: rest => .char c :: marks n rest
  | n, .placeholder _ :: rest => .slot n :: marks (n + 1) rest

theorem cut_chunks {text : String} {fuel n : Nat} {ms : List Mark} {paths : List DotPath}
    (hfuel : cs.length ≤ fuel) (h : cut text fuel n cs = .ok (ms, paths)) :
    ∃ chunks, IsCut chunks ∧ written chunks = cs ∧ marks n chunks = ms ∧
      List.Forall₂ (fun body p => readBody text body = .ok p) (bodies chunks) paths := by
  fun_induction cut text fuel n cs generalizing ms paths with
  | case1 n cs =>
      obtain rfl := List.length_eq_zero_iff.mp (Nat.le_zero.mp hfuel)
      cases h
      exact ⟨[], trivial, rfl, rfl, .nil⟩
  | case2 fuel n hne =>
      cases h
      exact ⟨[], trivial, rfl, rfl, .nil⟩
  | case3 fuel n rest body after hclose ih =>
      obtain ⟨rfl, hbody⟩ := untilClose?_eq_some hclose
      obtain ⟨path, hpath, h⟩ := ok_of_bind h
      obtain ⟨⟨ms', paths'⟩, hp, h⟩ := ok_of_bind h
      cases h
      have hafter : after.length ≤ fuel := by
        simp only [List.length_cons, List.length_append] at hfuel
        omega
      obtain ⟨chunks, hcut, rfl, rfl, hpaths⟩ := ih hafter hp
      exact ⟨.placeholder body :: chunks, ⟨hbody, hcut⟩, written_placeholder body chunks, rfl,
        .cons hpath hpaths⟩
  | case4 fuel n rest hclose ih =>
      obtain ⟨⟨ms', paths'⟩, hp, h⟩ := ok_of_bind h
      cases h
      obtain ⟨chunks, hcut, hwritten, rfl, hpaths⟩ := ih (Nat.le_of_succ_le_succ hfuel) hp
      refine ⟨.char '\x7b' :: chunks, ⟨?_, hcut⟩, by rw [written_cons, hwritten]; rfl, rfl, hpaths⟩
      intro after heq
      rw [hwritten] at heq
      cases heq
      exact untilClose?_eq_none hclose
  | case5 fuel n c rest hne ih =>
      obtain ⟨⟨ms', paths'⟩, hp, h⟩ := ok_of_bind h
      cases h
      obtain ⟨chunks, hcut, hwritten, rfl, hpaths⟩ := ih (Nat.le_of_succ_le_succ hfuel) hp
      refine ⟨.char c :: chunks, ⟨?_, hcut⟩, by rw [written_cons, hwritten]; rfl, rfl, hpaths⟩
      intro after heq
      rw [hwritten] at heq
      cases heq
      exact (hne after rfl rfl).elim

end Conduit.Template
