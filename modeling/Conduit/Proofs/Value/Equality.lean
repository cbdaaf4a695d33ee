import Conduit.Proofs.Fields
import Conduit.Proofs.Number.Order
import Conduit.Value.Order

/-!
# Values that are equal to themselves

NaN is equal to nothing, and so is a value that holds it somewhere. All other
values are equal to themselves.
-/

namespace Conduit

namespace Value

mutual

/-- A value and all that it is made of, keys included, have a property. -/
def Throughout (P : Value → Prop) : Value → Prop
  | .arr xs => P (.arr xs) ∧ ThroughoutItems P xs
  | .obj fs => P (.obj fs) ∧ ThroughoutFields P fs
  | .mapping es => P (.mapping es) ∧ ThroughoutEntries P es
  | v => P v

def ThroughoutItems (P : Value → Prop) : List Value → Prop
  | [] => True
  | x :: xs => Throughout P x ∧ ThroughoutItems P xs

def ThroughoutFields (P : Value → Prop) : List (String × Value) → Prop
  | [] => True
  | (_, v) :: rest => Throughout P v ∧ ThroughoutFields P rest

def ThroughoutEntries (P : Value → Prop) : List (Value × Value) → Prop
  | [] => True
  | (k, v) :: rest => Throughout P k ∧ Throughout P v ∧ ThroughoutEntries P rest

end

def IsNotNaN (v : Value) : Prop := v ≠ .number (.double .nan)

/-- An object gives each of its names once. -/
def NamesOnce : Value → Prop
  | .obj fs => (Fields.names fs).Nodup
  | _ => True

theorem throughoutItems_iff {P : Value → Prop} {xs : List Value} :
    ThroughoutItems P xs ↔ ∀ x ∈ xs, x.Throughout P := by
  induction xs with
  | nil => simp [ThroughoutItems]
  | cons x xs ih => rw [ThroughoutItems, ih, List.forall_mem_cons]

theorem throughoutFields_iff {P : Value → Prop} {fs : List (String × Value)} :
    ThroughoutFields P fs ↔ ∀ v ∈ Fields.values fs, v.Throughout P := by
  induction fs with
  | nil => simp [ThroughoutFields, Fields.values]
  | cons f rest ih =>
      rw [ThroughoutFields, ih]
      exact List.forall_mem_cons.symm

theorem throughoutFields_mem {P : Value → Prop} {fs : List (String × Value)}
    (h : ThroughoutFields P fs) {p : String × Value} (hp : p ∈ fs) : p.2.Throughout P :=
  throughoutFields_iff.mp h p.2 (List.mem_map_of_mem hp)

mutual

theorem equal_self : ∀ v : Value, v.Throughout IsNotNaN → v.Throughout NamesOnce →
    v.equal v = true
  | .null, _, _ => by rw [equal]
  | .bool b, _, _ => by simp [equal]
  | .number x, hnan, _ => by
      rw [equal]
      refine Number.equal_self ?_
      rintro rfl
      exact hnan rfl
  | .str s, _, _ => by simp [equal]
  | .date d, _, _ => by simp [equal]
  | .arr xs, hnan, hnames => by
      rw [equal]
      exact equalItems_self xs hnan.2 hnames.2
  | .obj fs, hnan, hnames => by
      rw [equal, beq_self_eq_true, Bool.true_and]
      exact equalFields_of_get? fs hnan.2 hnames.2 fs fun p hp => Fields.get?_of_mem hnames.1 hp
  | .mapping es, hnan, hnames => by
      rw [equal, beq_self_eq_true, Bool.true_and]
      exact equalEntries_of_subset es hnan.2 hnames.2 es fun _ h => h

theorem equalItems_self : ∀ xs : List Value, ThroughoutItems IsNotNaN xs →
    ThroughoutItems NamesOnce xs → equalItems xs xs = true
  | [], _, _ => by rw [equalItems]
  | x :: xs, hnan, hnames => by
      rw [equalItems, equal_self x hnan.1 hnames.1, equalItems_self xs hnan.2 hnames.2]
      rfl

theorem equalFields_of_get? : ∀ fs : List (String × Value), ThroughoutFields IsNotNaN fs →
    ThroughoutFields NamesOnce fs →
    ∀ gs, (∀ p ∈ fs, Fields.get? p.1 gs = some p.2) → equalFields fs gs = true
  | [], _, _, _, _ => by rw [equalFields]
  | (k, v) :: rest, hnan, hnames, gs, h => by
      obtain ⟨hv, hrest⟩ := List.forall_mem_cons.mp h
      rw [equalFields, hv, equalFields_of_get? rest hnan.2 hnames.2 gs hrest]
      exact (Bool.and_true _).trans (equal_self v hnan.1 hnames.1)

theorem equalEntries_of_subset : ∀ es : List (Value × Value), ThroughoutEntries IsNotNaN es →
    ThroughoutEntries NamesOnce es → ∀ ds, es ⊆ ds → equalEntries es ds = true
  | [], _, _, _, _ => by rw [equalEntries]
  | (k, v) :: rest, hnan, hnames, ds, h => by
      obtain ⟨hmem, hrest⟩ := List.cons_subset.mp h
      have hentry : (equal k k && equal v v) = true := by
        rw [equal_self k hnan.1 hnames.1, equal_self v hnan.2.1 hnames.2.1]
        rfl
      rw [equalEntries, equalEntries_of_subset rest hnan.2.2 hnames.2.2 ds hrest, Bool.and_true]
      exact List.any_eq_true.mpr ⟨(k, v), hmem, hentry⟩

end

end Value

end Conduit
