import Conduit.Reading.Basic

/-!
# Reading objects and lists

The members of an object or a list, each smaller than the whole, so that
a reader that calls itself on members comes to an end. An object may
name one of its fields by any of several names; the first of them that is
present counts, and whatever is left over is an issue.

This stands for the validation of models, with aliases, by Pydantic.
-/

namespace Conduit

/-- A value smaller than `n`. -/
abbrev Smaller (n : Nat) := { v : Value // v.size < n }

namespace Smaller

def widen {m n : Nat} (h : m ≤ n) (v : Smaller m) : Smaller n :=
  ⟨v.1, Nat.lt_of_lt_of_le v.2 h⟩

end Smaller

namespace Value

/-- The sizes of the values of entries. -/
def sizeValues : List (Value × Value) → Nat
  | [] => 0
  | (_, v) :: rest => v.size + sizeValues rest

theorem sizeValues_le_sizeEntries (es : List (Value × Value)) : sizeValues es ≤ sizeEntries es := by
  induction es with
  | nil => exact Nat.le_refl 0
  | cons e rest ih =>
    obtain ⟨k, v⟩ := e
    simp only [sizeValues, sizeEntries]
    omega

theorem sizeValues_map_str (fs : List (String × Value)) :
    sizeValues (fs.map fun p => (.str p.1, p.2)) = sizeFields fs := by
  induction fs with
  | nil => rfl
  | cons f rest ih =>
    obtain ⟨k, v⟩ := f
    simp only [List.map_cons, sizeValues, sizeFields, ih]

theorem sizeValues_entries {v : Value} {es : List (Value × Value)} (h : v.entries? = some es) :
    sizeValues es < v.size := by
  unfold entries? at h
  split at h
  · cases h
    rw [sizeValues_map_str, size]
    omega
  · cases h
    have := sizeValues_le_sizeEntries es
    rw [size]
    omega
  · cases h

theorem size_le_sizeValues {e : Value × Value} {es : List (Value × Value)} (h : e ∈ es) :
    e.2.size ≤ sizeValues es := by
  induction es with
  | nil => cases h
  | cons f rest ih =>
    obtain ⟨k, v⟩ := f
    rw [sizeValues]
    cases h with
    | head => exact Nat.le_add_right _ _
    | tail _ h => exact Nat.le_trans (ih h) (Nat.le_add_left _ _)

def items? (v : Value) : Option (List (Smaller v.size)) :=
  match v with
  | .arr xs => some (xs.attach.map fun x => ⟨x.1, by
      have := size_le_sizeItems x.2
      rw [size]
      omega⟩)
  | _ => none

end Value

/-- The fields of an object that is being read. -/
structure Arguments (n : Nat) where
  entries : List (Value × Smaller n)

namespace Arguments

variable {n : Nat} {α : Type}

/-- The arguments that entries of a bounded size give. -/
def ofEntries (es : List (Value × Value)) (h : Value.sizeValues es < n) : Arguments n :=
  ⟨es.attach.map fun e =>
    (e.1.1, ⟨e.1.2, Nat.lt_of_le_of_lt (Value.size_le_sizeValues e.2) h⟩)⟩

def of? (v : Value) : Option (Arguments v.size) :=
  match h : v.entries? with
  | some es => some (ofEntries es (Value.sizeValues_entries h))
  | none => none

def get? (name : String) (args : Arguments n) : Option (Smaller n) :=
  (args.entries.find? fun e => match e.1 with
    | .str key => key == name
    | _ => false).map Prod.snd

/-- The first of several names that is present. -/
def present? (names : List String) (args : Arguments n) : Option String :=
  names.find? fun name => (args.get? name).isSome

/-- What stands under the first of several names that is present. -/
def find? (names : List String) (args : Arguments n) : Option (Smaller n) :=
  names.findSome? fun name => args.get? name

/-- The place of a field in issues: its first name. -/
def crumb (names : List String) : Crumb := .key (names.headD "")

def required (names : List String) (read : Smaller n → Reading α) (args : Arguments n) :
    Reading α :=
  Reading.under (crumb names) <| match args.find? names with
    | some v => read v
    | none => .complain .missing

def optional (names : List String) (absent : α) (read : Smaller n → Reading α)
    (args : Arguments n) : Reading α :=
  match args.find? names with
  | some v => (read v).under (crumb names)
  | none => .done absent

/-- A field that may be absent or null. -/
def nullable (names : List String) (read : Smaller n → Reading α) (args : Arguments n) :
    Reading (Option α) :=
  args.optional names none fun v =>
    match v.1 with
    | .null => .done none
    | _ => (read v).map some

/-- The issue of a key that none of the fields took. -/
def leftover (taken : List String) : Value → Option Issue
  | .str key => if taken.contains key then none else some ⟨[.key key], .extra⟩
  | key => some ⟨[.ofKey key], .keyNotString⟩

/-- Whether the arguments hold nothing but the given fields, each of which
is known by several names. -/
def closed (fields : List (List String)) (args : Arguments n) : Reading Unit :=
  let taken := fields.filterMap args.present?
  match args.entries.filterMap fun e => leftover taken e.1 with
  | [] => .done ()
  | issues => .refused issues

end Arguments

namespace Reading

variable {α : Type}

/-- The readings of the items of a list, each at its position. -/
def items {n : Nat} (read : Smaller n → Reading α) (from_ : Nat) :
    List (Smaller n) → Reading (List α)
  | [] => .done []
  | v :: rest =>
    apply (((read v).under (.position from_)).map fun a as => a :: as) (items read (from_ + 1) rest)

def list (v : Value) (read : Smaller v.size → Reading α) : Reading (List α) :=
  match v.items? with
  | some xs => items read 0 xs
  | none => complain .notList

/-- The fields of an object with any keys, each key and then its value at
the place of the key. -/
def fieldsFrom {n : Nat} (read : Smaller n → Reading α) :
    List (Value × Smaller n) → Reading (List (String × α))
  | [] => .done []
  | (key, v) :: rest =>
    let name : Reading String := match key with
      | .str s => .done s
      | k => .refused [⟨[.ofKey k, .key "[key]"], .notString⟩]
    apply (apply (name.map fun s a as => (s, a) :: as) ((read v).under (.ofKey key)))
      (fieldsFrom read rest)

/-- An object as a map of fields. -/
def fields (v : Value) (read : Smaller v.size → Reading α) : Reading (Fields α) :=
  match Arguments.of? v with
  | some args => fieldsFrom read args.entries
  | none => complain .notObject

end Reading

end Conduit
