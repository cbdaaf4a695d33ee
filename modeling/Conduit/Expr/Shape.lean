import Conduit.Expr.Operator
import Conduit.Reading.Object

/-!
# The arguments of an operator

An operator object holds its arguments under the operator's name. Most
operators take an object of named arguments; some also take a shorter
form, a list of operands or a text, and a few take one operand as it is.
Every shape comes down to named arguments.
-/

namespace Conduit

namespace Operator

/-- The operator and the argument of an operator object. -/
def ofObject? : Value → Option (Operator × Value)
  | .obj [(key, arg)] => (ofName? key).map fun op => (op, arg)
  | _ => none

theorem size_ofObject {v arg : Value} {op : Operator} (h : ofObject? v = some (op, arg)) :
    v.size = arg.size + 1 := by
  unfold ofObject? at h
  split at h
  · next key a =>
    simp only [Option.map_eq_some_iff, Prod.mk.injEq] at h
    obtain ⟨_, _, _, rfl⟩ := h
    simp only [Value.size, Value.sizeFields]
    omega
  · cases h

/-- How an operator takes its arguments. -/
inductive Shape where
  /-- One operand, under this name. -/
  | operand (name : String)
  | named
  /-- A text under this name, or named arguments. -/
  | text (name : String)
  /-- A list under this name, or named arguments. -/
  | list (name : String)
  /-- Two operands in a list, or named `left` and `right`. -/
  | pair
  /-- A list of operands, or `left` and `right`, or named arguments. -/
  | operands
  | nothing
  deriving DecidableEq, Repr

def shape : Operator → Shape
  | .literal => .operand "value"
  | .get => .text "path"
  | .jsonPath => .text "path"
  | .merge => .list "objects"
  | .present => .operand "value"
  | .now => .nothing
  | .renderString => .text "template"
  | .earlyReturn => .operand "value"
  | .compare _ => .pair
  | .and => .list "operands"
  | .or => .list "operands"
  | .not => .operand "operand"
  | .variadic _ => .list "operands"
  | .dyadic _ => .operands
  | _ => .named

/-- Why an argument has not the shape that its operator takes. -/
inductive ShapeError where
  | notAnObject (op : Operator) (typeName : String)
  | notTwo (op : Operator) (count : Nat)
  | takesNothing (op : Operator)
  deriving DecidableEq, Repr

def ShapeError.message : ShapeError → String
  | .notAnObject op typeName =>
    op.name ++ " expects an object of arguments, got " ++ typeName
  | .notTwo op count => op.name ++ " takes exactly 2 operands, got " ++ toString count
  | .takesNothing op => op.name ++ " takes no arguments"

end Operator

namespace Arguments

open Operator

def single (name : String) (arg : Value) : Arguments (arg.size + 1) :=
  ⟨[(.str name, ⟨arg, Nat.lt_succ_self _⟩)]⟩

def named (op : Operator) (arg : Value) : Except ShapeError (Arguments (arg.size + 1)) :=
  match arg.entries?, @Value.sizeValues_entries arg with
  | some es, h => .ok (ofEntries es (Nat.lt_succ_of_lt (h rfl)))
  | none, _ => .error (.notAnObject op arg.typeName)

/-- The value of a key that is the given name. -/
def lookup (name : String) : List (Value × Value) → Option Value
  | [] => none
  | (.str key, v) :: rest => if key = name then some v else lookup name rest
  | (_, _) :: rest => lookup name rest

theorem size_lookup_le {name : String} {es : List (Value × Value)} {v : Value}
    (h : lookup name es = some v) : v.size ≤ Value.sizeValues es := by
  induction es with
  | nil => cases h
  | cons e rest ih =>
    obtain ⟨k, w⟩ := e
    rw [Value.sizeValues]
    unfold lookup at h
    split at h
    · cases ‹_ :: _ = []›
    · rename_i heq
      cases heq
      split at h
      · cases h
        exact Nat.le_add_right _ _
      · exact Nat.le_trans (ih h) (Nat.le_add_left _ _)
    · rename_i heq
      cases heq
      exact Nat.le_trans (ih h) (Nat.le_add_left _ _)

/-- Two fields of different names together are no larger than all. -/
theorem size_lookup_add_le {a b : String} (hab : a ≠ b) {es : List (Value × Value)} {v w : Value}
    (hv : lookup a es = some v) (hw : lookup b es = some w) :
    v.size + w.size ≤ Value.sizeValues es := by
  induction es with
  | nil => cases hv
  | cons e rest ih =>
    obtain ⟨k, u⟩ := e
    rw [Value.sizeValues]
    cases k with
    | str key =>
      simp only [lookup] at hv hw
      split at hv
      · next hka =>
        cases hv
        split at hw
        · next hkb => exact absurd (hka.symm.trans hkb) hab
        · have := size_lookup_le hw
          omega
      · split at hw
        · cases hw
          have := size_lookup_le hv
          omega
        · have := ih hv hw
          omega
    | _ =>
      simp only [lookup] at hv hw
      have := ih hv hw
      omega

/-- The operands `left` and `right` as a list, next to the other
arguments, which may give the list anew. -/
def operandPair (es : List (Value × Value)) {n : Nat} (h : Value.sizeValues es + 1 < n) :
    Option (Arguments n) :=
  match hl : lookup "left" es with
  | none => none
  | some left =>
    match hr : lookup "right" es with
    | none => none
    | some right =>
      have bound : (Value.arr [left, right]).size < n := by
        have := size_lookup_add_le (by decide) hl hr
        simp only [Value.size, Value.sizeItems]
        omega
      let others := (ofEntries es (n := n) (by omega)).entries.filter fun e =>
        match e.1 with
        | .str key => key ≠ "left" && key ≠ "right"
        | _ => true
      let given := others.any fun e =>
        match e.1 with
        | .str key => key == "operands"
        | _ => false
      some ⟨if given then others else (.str "operands", ⟨_, bound⟩) :: others⟩

/-- The named arguments that an argument of any shape stands for. -/
def ofShape (op : Operator) (arg : Value) : Except ShapeError (Arguments (arg.size + 1)) :=
  match op.shape with
  | .operand name => .ok (single name arg)
  | .named => named op arg
  | .text name =>
    match arg with
    | .str s => .ok (single name (.str s))
    | other => named op other
  | .list name =>
    match arg with
    | .arr xs => .ok (single name (.arr xs))
    | other => named op other
  | .pair =>
    match arg with
    | .arr [left, right] =>
      .ok ⟨[(.str "left", ⟨left, by simp only [Value.size, Value.sizeItems]; omega⟩),
        (.str "right", ⟨right, by simp only [Value.size, Value.sizeItems]; omega⟩)]⟩
    | .arr xs => .error (.notTwo op xs.length)
    | other => named op other
  | .operands =>
    match arg with
    | .arr xs => .ok (single "operands" (.arr xs))
    | other =>
      match other.entries?, @Value.sizeValues_entries other with
      | some es, h =>
        match operandPair es (n := other.size + 1) (Nat.succ_lt_succ (h rfl)) with
        | some args => .ok args
        | none => .ok (ofEntries es (Nat.lt_succ_of_lt (h rfl)))
      | none, _ => .error (.notAnObject op other.typeName)
  | .nothing =>
    match arg with
    | .null => .ok ⟨[]⟩
    | .obj [] => .ok ⟨[]⟩
    | _ => .error (.takesNothing op)

end Arguments

end Conduit
