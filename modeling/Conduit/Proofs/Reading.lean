import Conduit.Reading.Object

/-!
# What a reading yields

A condition on all that a reading can come to is put together like the
reading itself: from conditions on the parts that are read side by side, and
on the members of lists and objects.
-/

namespace Conduit

namespace Reading

variable {α β : Type} {P : α → Prop} {Q : β → Prop}

/-- Whatever is read, if nothing is wrong with it, is good. -/
def Yields (Good : α → Prop) (r : Reading α) : Prop := ∀ a, r = .done a → Good a

namespace Yields

theorem done {a : α} (h : P a) : Yields P (.done a) := by
  rintro b hb
  cases hb
  exact h

theorem refused {issues : List Issue} : Yields P (.refused issues) := by
  intro a ha
  cases ha

theorem any {r : Reading α} : Yields (fun _ => True) r := fun _ _ => trivial

theorem map {f : α → β} {x : Reading α} (hx : Yields P x) (hf : ∀ a, P a → Q (f a)) :
    Yields Q (x.map f) := by
  cases x with
  | done a => exact done (hf a (hx a rfl))
  | refused issues => exact refused

/-- The condition on a function that is read says what it makes of good
arguments. -/
theorem apply {f : Reading (α → β)} {x : Reading α} (hf : Yields (fun g => ∀ a, P a → Q (g a)) f)
    (hx : Yields P x) : Yields Q (f.apply x) := by
  cases f with
  | refused issues => cases x <;> exact refused
  | done g =>
      cases x with
      | done a => exact done (hf g rfl a (hx a rfl))
      | refused issues => exact refused

theorem seq {f : Reading (α → β)} {x : Reading α} (hf : Yields (fun g => ∀ a, P a → Q (g a)) f)
    (hx : Yields P x) : Yields Q (f <*> x) := apply hf hx

theorem fmap {f : α → β} {x : Reading α} (hx : Yields P x) (hf : ∀ a, P a → Q (f a)) :
    Yields Q (f <$> x) := apply (done hf) hx

theorem seqLeft {x : Reading α} {y : Reading β} (hx : Yields P x) : Yields P (x <* y) := by
  cases x with
  | refused issues => cases y <;> exact refused
  | done a =>
      cases y with
      | done b => exact done (hx a rfl)
      | refused issues => exact refused

theorem right {x : Reading α} {y : Reading β} :
    Yields (fun _ => ∃ b, y = .done b) (x <* y) := by
  cases x with
  | refused issues => cases y <;> exact refused
  | done a =>
      cases y with
      | done b => exact done ⟨b, rfl⟩
      | refused issues => exact refused

theorem andThen {x : Reading α} {f : α → Reading β} (hx : Yields P x)
    (hf : ∀ a, P a → Yields Q (f a)) : Yields Q (x.andThen f) := by
  cases x with
  | done a => exact hf a (hx a rfl)
  | refused issues => exact refused

theorem under {crumb : Crumb} {x : Reading α} (hx : Yields P x) : Yields P (x.under crumb) :=
  fun a ha => hx a (under_eq_done.mp ha)

theorem ofExcept {ε : Type} {message : ε → String} {r : Except ε α} (h : ∀ a, r = .ok a → P a) :
    Yields P (.ofExcept message r) := by
  cases r with
  | ok a => exact done (h a rfl)
  | error e => exact refused

/-! ## Members -/

theorem items {n : Nat} {read : Smaller n → Reading α} (h : ∀ v, Yields P (read v)) (start : Nat)
    (vs : List (Smaller n)) : Yields (fun as => ∀ a ∈ as, P a) (Reading.items read start vs) := by
  induction vs generalizing start with
  | nil => exact done (by simp)
  | cons v rest ih =>
      refine apply (P := fun as => ∀ a ∈ as, P a) ?_ (ih _)
      exact map (under (h v)) fun a ha as has => List.forall_mem_cons.mpr ⟨ha, has⟩

theorem list {v : Value} {read : Smaller v.size → Reading α} (h : ∀ w, Yields P (read w)) :
    Yields (fun as => ∀ a ∈ as, P a) (Reading.list v read) := by
  unfold Reading.list
  split
  · exact items h 0 _
  · exact refused

theorem fieldsFrom {n : Nat} {read : Smaller n → Reading α} (h : ∀ v, Yields P (read v))
    (es : List (Value × Smaller n)) :
    Yields (fun fs => ∀ f ∈ fs, P f.2) (Reading.fieldsFrom read es) := by
  induction es with
  | nil => exact done (by simp)
  | cons e rest ih =>
      refine apply (P := fun fs => ∀ f ∈ fs, P f.2) (apply (map any ?_) (under (h e.2))) ih
      exact fun name _ a ha fs hfs => List.forall_mem_cons.mpr ⟨ha, hfs⟩

theorem fields {v : Value} {read : Smaller v.size → Reading α} (h : ∀ w, Yields P (read w)) :
    Yields (fun fs => ∀ f ∈ fs, P f.2) (Reading.fields v read) := by
  unfold Reading.fields
  split
  · exact fieldsFrom h _
  · exact refused

/-! ## Arguments -/

variable {n : Nat} {names : List String} {read : Smaller n → Reading α} {args : Arguments n}

theorem required (h : ∀ v, Yields P (read v)) : Yields P (args.required names read) := by
  unfold Arguments.required
  refine under ?_
  split
  · exact h _
  · exact refused

theorem optional {absent : α} (ha : P absent) (h : ∀ v, Yields P (read v)) :
    Yields P (args.optional names absent read) := by
  unfold Arguments.optional
  split
  · exact under (h _)
  · exact done ha

theorem nullable (h : ∀ v, Yields P (read v)) :
    Yields (fun o => ∀ a, o = some a → P a) (args.nullable names read) := by
  refine optional (by simp) fun v => ?_
  split
  · exact done (by simp)
  · refine map (h v) fun a ha b hb => ?_
    cases hb
    exact ha

end Yields

end Reading

end Conduit
