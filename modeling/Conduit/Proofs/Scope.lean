import Conduit.Proofs.Fields
import Conduit.Scope

/-!
# What is bound in a scope

A name is bound in a scope if one of its frames has it. Bindings are only
ever added: a scope inside another one binds all that the outer one binds,
and a further binding adds exactly its own name. The value of a name is that
of its innermost binding, in the scope as in all its frames flattened to one.
-/

namespace Conduit

namespace Scope

variable {name : String} {names : List String} {s t : Scope}

/-- The scope binds all of the given names. -/
def Binds (s : Scope) (names : List String) : Prop := ∀ name ∈ names, s.contains name = true

instance : Decidable (s.Binds names) :=
  inferInstanceAs (Decidable (∀ name ∈ names, s.contains name = true))

theorem get?_ofFields (fields : Fields Value) : (ofFields fields).get? name = fields.get? name := by
  unfold get? ofFields frames
  rw [lookup]
  cases Fields.get? name fields <;> rfl

theorem get?_child (bindings : Fields Value) :
    (s.child bindings).get? name = (bindings.get? name).or (s.get? name) := by
  unfold get? child frames
  rw [lookup]
  cases Fields.get? name bindings <;> rfl

theorem contains_ofFields {fields : Fields Value} :
    (ofFields fields).contains name = true ↔ name ∈ fields.names := by
  rw [contains, get?_ofFields]
  exact Fields.contains_iff_mem_names

theorem contains_child (bindings : Fields Value) :
    (s.child bindings).contains name = (bindings.contains name || s.contains name) := by
  rw [contains, get?_child, Option.isSome_or]
  rfl

/-- An inner scope binds the names of its own and those of the scope around. -/
theorem Binds.child {bindings : Fields Value} (h : s.Binds names) :
    (s.child bindings).Binds (bindings.names ++ names) := by
  intro name hname
  rw [contains_child, Bool.or_eq_true]
  rcases List.mem_append.mp hname with hb | hs
  · exact .inl (Fields.contains_iff_mem_names.mpr hb)
  · exact .inr (h name hs)

theorem bind_eq_duplicate_iff {v : Value} :
    s.bind name v = .error (.duplicateBinding name) ↔ s.contains name = true := by
  unfold bind
  split
  · next h => exact ⟨fun _ => h, fun _ => rfl⟩
  · next h =>
      constructor
      · intro hbind
        cases hbind
      · exact fun hc => absurd hc h

theorem contains_bind {other : String} {v : Value} {t : Scope} (h : s.bind other v = .ok t) :
    t.contains name = (other == name || s.contains name) := by
  unfold bind at h
  split at h
  · cases h
  · cases h
    unfold contains get? frames
    rw [lookup, lookup, Fields.get?_set]
    by_cases hn : other = name
    · simp [hn]
    · simp [hn]

/-! ## Further bindings -/

theorem get?_bind {other : String} {v : Value} (h : s.bind other v = .ok t) :
    t.get? name = if other = name then some v else s.get? name := by
  unfold bind at h
  split at h
  · cases h
  · cases h
    unfold get? frames
    rw [lookup, lookup, Fields.get?_set]
    by_cases hn : other = name
    · rw [if_pos hn, if_pos hn]
    · rw [if_neg hn, if_neg hn]

/-- What a scope binds is what another one binds, and besides that exactly the
given names, each to its value. -/
structure Extends (s : Scope) (added : Fields Value) (t : Scope) : Prop where
  get? : ∀ name, t.get? name = (s.get? name).or (added.get? name)
  fresh : ∀ name ∈ added.names, s.get? name = none
  distinct : added.names.Nodup

namespace Extends

variable {u : Scope} {added more : Fields Value}

theorem refl (s : Scope) : s.Extends [] s := by
  refine ⟨fun name => ?_, by simp [Fields.names], List.nodup_nil⟩
  exact (Option.or_none).symm

theorem trans (h : s.Extends added t) (h' : t.Extends more u) : s.Extends (added ++ more) u := by
  have hmore : ∀ name ∈ more.names, s.get? name = none ∧ added.get? name = none := by
    intro name hname
    have hnone := h'.fresh name hname
    rw [h.get?] at hnone
    exact Option.or_eq_none_iff.mp hnone
  refine ⟨fun name => ?_, fun name hname => ?_, ?_⟩
  · rw [h'.get?, h.get?, Fields.get?_append, Option.or_assoc]
  · rw [Fields.names, List.map_append] at hname
    rcases List.mem_append.mp hname with hname | hname
    · exact h.fresh name hname
    · exact (hmore name hname).1
  · rw [Fields.names, List.map_append]
    refine List.nodup_append.mpr ⟨h.distinct, h'.distinct, ?_⟩
    rintro name hadded _ hname rfl
    have hcontains := Fields.contains_iff_mem_names.mpr hadded
    rw [Fields.contains, (hmore name hname).2] at hcontains
    cases hcontains

theorem of_bind {v : Value} (h : s.bind name v = .ok t) : s.Extends [(name, v)] t := by
  have hfresh : s.get? name = none := by
    unfold bind at h
    split at h
    · cases h
    · next hcontains => simpa [contains] using hcontains
  refine ⟨fun other => ?_, by simpa [Fields.names] using hfresh, by simp [Fields.names]⟩
  rw [get?_bind h, Fields.get?, Fields.get?]
  split
  · next hname => rw [← hname, hfresh, Option.none_or]
  · rw [Option.or_none]

end Extends

/-! ## Meanings of names -/

/-- No frame binds a name twice. -/
def IsDistinct (s : Scope) : Prop := ∀ frame ∈ s.frames, frame.names.Nodup

instance : Decidable s.IsDistinct :=
  inferInstanceAs (Decidable (∀ frame ∈ s.frames, frame.names.Nodup))

/-- Each of the names is unbound in both scopes, or it is bound in both to the
same value. -/
def AgreesOn (names : List String) (s t : Scope) : Prop :=
  ∀ name ∈ names, s.get? name = t.get? name

theorem get?_flatten {frames : List (Fields Value)} (h : ∀ frame ∈ frames, frame.names.Nodup) :
    (flatten frames).get? name = lookup name frames := by
  induction frames with
  | nil => rfl
  | cons frame outer ih =>
      obtain ⟨hframe, houter⟩ := List.forall_mem_cons.mp h
      rw [flatten, Fields.get?_overlay, Fields.get?_reverse hframe, ih houter, lookup]
      cases Fields.get? name frame <;> rfl

/-- A scope as one frame gives every name the meaning that it has. -/
theorem get?_toFields (h : s.IsDistinct) : s.toFields.get? name = s.get? name := get?_flatten h

theorem get?_toFields_child (bindings : Fields Value) :
    (s.child bindings).toFields.get? name =
      (Fields.get? name bindings.reverse).or (s.toFields.get? name) :=
  Fields.get?_overlay _ _

end Scope

end Conduit
