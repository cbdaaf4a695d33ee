import Conduit.Reading.Issue

/-!
# Readings

A reading is what comes of a part of a document: what it stands for, or
the issues found in it. Readings of several parts are put together side
by side, so that the issues of all of them are kept, in order.

Data are validated by Pydantic, a library on its own. The modules on readings
stand for it, as far as the models of expressions and configurations ask for.
-/

namespace Conduit

inductive Reading (α : Type) where
  | done (a : α)
  | refused (issues : List Issue)
  deriving Inhabited

namespace Reading

variable {α β : Type}

def map (f : α → β) : Reading α → Reading β
  | .done a => .done (f a)
  | .refused issues => .refused issues

/-- A function and its argument, read side by side. -/
def apply (f : Reading (α → β)) (x : Reading α) : Reading β :=
  match f, x with
  | .done g, .done a => .done (g a)
  | .done _, .refused issues => .refused issues
  | .refused issues, .done _ => .refused issues
  | .refused issues, .refused more => .refused (issues ++ more)

instance : Applicative Reading where
  pure := .done
  seq f x := apply f (x ())

/-- A further condition on what was read. -/
def andThen (x : Reading α) (f : α → Reading β) : Reading β :=
  match x with
  | .done a => f a
  | .refused issues => .refused issues

/-- One issue at the place that is being read. -/
def complain (complaint : Complaint) : Reading α := .refused [⟨[], complaint⟩]

/-- The reading of a part that stands at `crumb`. -/
def under (crumb : Crumb) : Reading α → Reading α
  | .done a => .done a
  | .refused issues =>
    .refused (issues.map fun issue => { issue with place := crumb :: issue.place })

/-- The readings of the members of a list. -/
def all : List (Reading α) → Reading (List α)
  | [] => .done []
  | x :: xs => apply (x.map fun a as => a :: as) (all xs)

/-- What an earlier parser made of a part, its error as a broken rule. -/
def ofExcept {ε : Type} (message : ε → String) : Except ε α → Reading α
  | .ok a => .done a
  | .error e => complain (.broken (message e))

/-! ## When a reading succeeds -/

@[simp] theorem map_eq_done {f : α → β} {x : Reading α} {b : β} :
    x.map f = .done b ↔ ∃ a, x = .done a ∧ f a = b := by
  cases x <;> simp [map]

@[simp] theorem apply_eq_done {f : Reading (α → β)} {x : Reading α} {b : β} :
    f.apply x = .done b ↔ ∃ g a, f = .done g ∧ x = .done a ∧ g a = b := by
  cases f <;> cases x <;> simp [apply]

@[simp] theorem andThen_eq_done {x : Reading α} {f : α → Reading β} {b : β} :
    x.andThen f = .done b ↔ ∃ a, x = .done a ∧ f a = .done b := by
  cases x <;> simp [andThen]

@[simp] theorem under_eq_done {crumb : Crumb} {x : Reading α} {a : α} :
    x.under crumb = .done a ↔ x = .done a := by
  cases x <;> simp [under]

end Reading

end Conduit
