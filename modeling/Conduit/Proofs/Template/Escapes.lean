import Conduit.Proofs.Number.Limits
import Mathlib.Algebra.Group.Int.Defs
import Mathlib.Data.List.Forall2

/-!
# What escapes from rendering a template

Following a path fails in ways of evaluation's own, or it runs past a limit:
at a name of digits that is too long, or where an index is too long to be
written. Rendering a template fails as the paths of its placeholders do. Else
what escapes from it comes from the template engine, or is the limit on the
length of an integer that is printed.

In each case it is told exactly when it happens.
-/

namespace Conduit

/-- A failure that comes from values alone. -/
def Failure.IsOrdinary (f : Failure) : Prop := f.isOwn = true ∨ ∃ l, f = .limit l

/-- What does not belong to evaluation and comes from values alone is a limit. -/
theorem Failure.eq_error_iff {α : Type} {r : Except Failure α} {P : Limit → Prop} {f : Failure}
    (hord : ∀ f, r = .error f → f.IsOrdinary) (hlimit : ∀ l, r = .error (.limit l) ↔ P l)
    (hf : f.isOwn = false) : r = .error f ↔ ∃ l, f = .limit l ∧ P l := by
  constructor
  · intro h
    rcases hord f h with hown | ⟨l, rfl⟩
    · rw [hown] at hf
      cases hf
    · exact ⟨l, rfl, (hlimit l).mp h⟩
  · rintro ⟨l, rfl, hl⟩
    exact (hlimit l).mpr hl

variable {l : Limit}

/-! ## One after another -/

section Except

variable {ε α β : Type} {e : ε}

theorem bind_eq_error_iff {x : Except ε α} {f : α → Except ε β} :
    (x >>= f) = .error e ↔ x = .error e ∨ ∃ a, x = .ok a ∧ f a = .error e := by
  cases x <;> simp [bind, Except.bind]

theorem bind_eq_ok_iff {x : Except ε α} {f : α → Except ε β} {b : β} :
    (x >>= f) = .ok b ↔ ∃ a, x = .ok a ∧ f a = .ok b := by
  cases x <;> simp [bind, Except.bind]

theorem map_eq_error_iff {x : Except ε α} {f : α → β} : x.map f = .error e ↔ x = .error e := by
  cases x <;> simp [Except.map]

theorem bind_ok_eq_error_iff {x : Except ε α} {f : α → β} :
    (do let a ← x; .ok (f a)) = .error e ↔ x = .error e := by
  cases x <;> simp [bind, Except.bind]

theorem mapError_eq_error_iff {ε' : Type} {x : Except ε α} {f : ε → ε'} {e' : ε'} :
    x.mapError f = .error e' ↔ ∃ e, x = .error e ∧ e' = f e := by
  cases x <;> simp [eq_comm]

theorem mapError_eq_ok_iff {ε' : Type} {x : Except ε α} {f : ε → ε'} {a : α} :
    x.mapError f = .ok a ↔ x = .ok a := by
  cases x <;> simp

/-- What is a limit stays that limit when it becomes a failure. -/
theorem mapError_limit_iff {x : Except Limit α} {P : Limit → Prop} {f : Failure}
    (hx : ∀ l, x = .error l ↔ P l) :
    x.mapError Failure.limit = .error f ↔ ∃ l, f = .limit l ∧ P l := by
  rw [mapError_eq_error_iff]
  simp only [hx]
  exact exists_congr fun l => and_comm

theorem mapError_long_iff {x : Except Limit α} {P : Prop} {l' : Limit} {f : Failure}
    (hx : ∀ l, x = .error l ↔ P ∧ l = l') :
    x.mapError Failure.limit = .error f ↔ P ∧ f = .limit l' := by
  rw [mapError_limit_iff hx]
  exact ⟨fun ⟨_, hf, hP, hl⟩ => ⟨hP, hl ▸ hf⟩, fun ⟨hP, hf⟩ => ⟨l', hf, hP, rfl⟩⟩

theorem mapM_congr {f g : α → Except ε β} {xs : List α} (h : ∀ x ∈ xs, f x = g x) :
    xs.mapM f = xs.mapM g := by
  induction xs with
  | nil => rfl
  | cons x xs ih =>
      obtain ⟨hx, hxs⟩ := List.forall_mem_cons.mp h
      rw [List.mapM_cons, List.mapM_cons, hx, ih hxs]

theorem mapM_eq_ok_iff {f : α → Except ε β} {xs : List α} {ys : List β} :
    xs.mapM f = .ok ys ↔ List.Forall₂ (fun x y => f x = .ok y) xs ys := by
  induction xs generalizing ys with
  | nil => cases ys <;> simp [pure, Except.pure]
  | cons x xs ih =>
      rw [List.mapM_cons, bind_eq_ok_iff]
      simp only [bind_eq_ok_iff, ih, pure, Except.pure, Except.ok.injEq]
      cases ys with
      | nil => simp
      | cons y ys =>
          rw [List.forall₂_cons]
          simp

/-- Of actions done one after another, the first that fails decides. -/
theorem mapM_eq_error_iff {f : α → Except ε β} {xs : List α} :
    xs.mapM f = .error e ↔ ∃ before x after, xs = before ++ x :: after ∧
      (∀ y ∈ before, ∃ b, f y = .ok b) ∧ f x = .error e := by
  induction xs with
  | nil => simp [pure, Except.pure]
  | cons x xs ih =>
      rw [List.mapM_cons, bind_eq_error_iff]
      constructor
      · rintro (hx | ⟨b, hb, hrest⟩)
        · exact ⟨[], x, xs, rfl, by simp, hx⟩
        · rcases bind_eq_error_iff.mp hrest with hxs | ⟨bs, -, hpure⟩
          · obtain ⟨before, y, after, rfl, hbefore, hy⟩ := ih.mp hxs
            exact ⟨x :: before, y, after, rfl, List.forall_mem_cons.mpr ⟨⟨b, hb⟩, hbefore⟩, hy⟩
          · cases hpure
      · rintro ⟨before, y, after, heq, hbefore, hy⟩
        rcases List.cons_eq_append_iff.mp heq with ⟨rfl, heq⟩ | ⟨before, rfl, rfl⟩
        · obtain ⟨rfl, rfl⟩ := List.cons.inj heq
          exact .inl hy
        · obtain ⟨⟨b, hb⟩, hbefore⟩ := List.forall_mem_cons.mp hbefore
          refine .inr ⟨b, hb, bind_eq_error_iff.mpr (.inl (ih.mpr ?_))⟩
          exact ⟨before, y, after, rfl, hbefore, hy⟩

theorem forM_eq_ok_iff {f : α → Except ε Unit} {xs : List α} {u : Unit} :
    forM xs f = .ok u ↔ ∀ x ∈ xs, f x = .ok () := by
  induction xs with
  | nil => simp [pure, Except.pure]
  | cons x xs ih =>
      rw [List.forM_cons, List.forall_mem_cons, ← ih]
      cases hx : f x <;> simp [bind, Except.bind]

/-- Of actions done one after another, the first that fails decides, whether
their results are kept or not. -/
theorem forM_eq_error_iff {f : α → Except ε Unit} {xs : List α} :
    forM xs f = .error e ↔ ∃ before x after, xs = before ++ x :: after ∧
      (∀ y ∈ before, f y = .ok ()) ∧ f x = .error e := by
  have hmapM : forM xs f = .error e ↔ xs.mapM f = .error e := by
    induction xs with
    | nil => simp [pure, Except.pure]
    | cons x xs ih =>
        rw [List.forM_cons, List.mapM_cons, bind_eq_error_iff, bind_eq_error_iff]
        simp only [ih, pure, Except.pure, bind_ok_eq_error_iff]
  rw [hmapM, mapM_eq_error_iff]
  have hunit : ∀ y, (∃ b, f y = .ok b) ↔ f y = .ok () :=
    fun y => ⟨fun ⟨_, hb⟩ => hb, fun h => ⟨_, h⟩⟩
  simp only [hunit]

theorem foldlM_eq_error_iff {f : β → α → Except ε β} {xs : List α} {b : β} :
    xs.foldlM f b = .error e ↔ ∃ before x after acc, xs = before ++ x :: after ∧
      before.foldlM f b = .ok acc ∧ f acc x = .error e := by
  induction xs generalizing b with
  | nil => simp [pure, Except.pure]
  | cons x xs ih =>
      rw [List.foldlM_cons, bind_eq_error_iff]
      constructor
      · rintro (hx | ⟨c, hc, hrest⟩)
        · exact ⟨[], x, xs, b, rfl, rfl, hx⟩
        · obtain ⟨before, y, after, acc, rfl, hacc, hy⟩ := ih.mp hrest
          refine ⟨x :: before, y, after, acc, rfl, ?_, hy⟩
          rw [List.foldlM_cons, hc]
          exact hacc
      · rintro ⟨before, y, after, acc, heq, hacc, hy⟩
        rcases List.cons_eq_append_iff.mp heq with ⟨rfl, heq⟩ | ⟨before, rfl, rfl⟩
        · obtain ⟨rfl, rfl⟩ := List.cons.inj heq
          cases hacc
          exact .inl hy
        · rw [List.foldlM_cons] at hacc
          cases hc : f b x with
          | error e' => rw [hc] at hacc; cases hacc
          | ok c =>
              rw [hc] at hacc
              exact .inr ⟨c, rfl, ih.mpr ⟨before, y, after, acc, rfl, hacc, hy⟩⟩

end Except

/-! ## Paths -/

/-- A name of digits that is too long to be a position in an array. -/
def Step.Exceeds (l : Limit) : Step → Value → Prop
  | .field name, .arr _ =>
    Value.isPosition name = true ∧ Limit.numeralDigits < name.length ∧ l = .longNumeral name.length
  | _, _ => False

/-- A step on the way along a path that exceeds a limit. -/
def DotPath.Exceeds (l : Limit) : List Step → Value → Prop
  | [], _ => False
  | s :: rest, v => s.Exceeds l v ∨ ∃ w, Query.selectStep s v = .ok [w] ∧ Exceeds l rest w

/-- A path with an index that is too long to be written. -/
def DotPath.IsLong (p : DotPath) : Prop := ∃ i, .index i ∈ p.steps ∧ (Number.int i).IsLong

namespace Step

variable {path : String} {s : Step} {v w : Value}

theorem positionOf_eq_error_iff {name : String} :
    Value.positionOf name = .error l ↔
      Limit.numeralDigits < name.length ∧ l = .longNumeral name.length := by
  unfold Value.positionOf
  split
  · next h => simp [h, eq_comm]
  · next h => simp [h]

/-- What a path makes of one step: the one value that a query finds, or a
failure where the query finds none. -/
theorem follow_cases (path : String) (s : Step) (v : Value) :
    (∃ w, s.follow path v = .ok w ∧ Query.selectStep s v = .ok [w]) ∨
    (∃ l, s.follow path v = .error (.limit l) ∧ Query.selectStep s v = .error l) ∨
    ∃ f, s.follow path v = .error f ∧ f.isOwn = true ∧ Query.selectStep s v = .ok [] := by
  unfold follow Query.selectStep
  cases s with
  | field name =>
      cases v with
      | arr xs =>
          dsimp only
          split
          · cases Value.positionOf name with
            | error l => exact .inr (.inl ⟨l, rfl, rfl⟩)
            | ok n =>
                dsimp only [bind, Except.bind]
                cases xs[n]? with
                | some w => exact .inl ⟨w, rfl, rfl⟩
                | none => exact .inr (.inr ⟨_, rfl, rfl, rfl⟩)
          · exact .inr (.inr ⟨_, rfl, rfl, rfl⟩)
      | _ =>
          dsimp only
          generalize Value.field? name _ = found
          cases found with
          | some w => exact .inl ⟨w, rfl, rfl⟩
          | none => exact .inr (.inr ⟨_, rfl, rfl, rfl⟩)
  | index i =>
      cases v with
      | arr xs =>
          dsimp only
          cases Value.element? xs i with
          | some w => exact .inl ⟨w, rfl, rfl⟩
          | none => exact .inr (.inr ⟨_, rfl, rfl, rfl⟩)
      | _ => exact .inr (.inr ⟨_, rfl, rfl, rfl⟩)

theorem selectStep_eq_error_iff : Query.selectStep s v = .error l ↔ s.Exceeds l v := by
  unfold Query.selectStep Exceeds
  split
  · next name xs =>
      split
      · next h =>
          rw [bind_eq_error_iff, positionOf_eq_error_iff]
          simp [h]
      · next h => simp [h]
  · simp_all
  · simp
  · simp

theorem follow_eq_ok_iff : s.follow path v = .ok w ↔ Query.selectStep s v = .ok [w] := by
  rcases follow_cases path s v with ⟨u, hf, hs⟩ | ⟨l, hf, hs⟩ | ⟨f, hf, -, hs⟩ <;> simp [hf, hs]

theorem follow_eq_limit_iff : s.follow path v = .error (.limit l) ↔ s.Exceeds l v := by
  rw [← selectStep_eq_error_iff]
  rcases follow_cases path s v with ⟨u, hf, hs⟩ | ⟨l', hf, hs⟩ | ⟨f, hf, hown, hs⟩
  · simp [hf, hs]
  · simp [hf, hs]
  · rw [hf, hs]
    refine iff_of_false (fun h => ?_) (fun h => by cases h)
    cases h
    cases hown

theorem follow_isOrdinary {f : Failure} (h : s.follow path v = .error f) : f.IsOrdinary := by
  rcases follow_cases path s v with ⟨u, hf, -⟩ | ⟨l, hf, -⟩ | ⟨g, hf, hown, -⟩ <;>
    rw [hf] at h <;> cases h
  · exact .inr ⟨l, rfl⟩
  · exact .inl hown

end Step

namespace DotPath

variable {path : String} {steps : List Step} {v : Value} {p : DotPath} {fields : Fields Value}

theorem follow_eq_limit_iff : follow path steps v = .error (.limit l) ↔ Exceeds l steps v := by
  induction steps generalizing v with
  | nil => simp [follow, Exceeds]
  | cons s rest ih =>
      rw [follow, Exceeds, bind_eq_error_iff, Step.follow_eq_limit_iff]
      simp only [Step.follow_eq_ok_iff, ih]

theorem follow_isOrdinary {f : Failure} (h : follow path steps v = .error f) : f.IsOrdinary := by
  induction steps generalizing v with
  | nil => cases h
  | cons s rest ih =>
      rcases bind_eq_error_iff.mp h with hs | ⟨w, -, hrest⟩
      · exact Step.follow_isOrdinary hs
      · exact ih hrest

theorem text_eq_error_iff {s : Step} {first : Bool} :
    s.text first = .error l ↔ (∃ i, s = .index i ∧ (Number.int i).IsLong) ∧ l = .longInteger := by
  cases s with
  | field name =>
      rw [Step.text]
      split <;> simp
  | index i =>
      rw [Step.text, bind_eq_error_iff, Number.text_eq_error_iff]
      simp

theorem formatSteps_eq_error_iff {first : Bool} : formatSteps first steps = .error l ↔
    (∃ i, .index i ∈ steps ∧ (Number.int i).IsLong) ∧ l = .longInteger := by
  induction steps generalizing first l with
  | nil => simp [formatSteps]
  | cons s rest ih =>
      rw [formatSteps]
      rw [Value.bind_eq_error_iff (fun _ => text_eq_error_iff)
        (fun _ => Value.bind_ok_eq_error_iff fun _ => ih)]
      simp [or_and_right, exists_or, eq_comm]

theorem format_eq_error_iff : format p.steps = .error l ↔ p.IsLong ∧ l = .longInteger := by
  rw [format, IsLong]
  exact Value.bind_ok_eq_error_iff (fun _ => formatSteps_eq_error_iff) l

end DotPath

/-! ## Templates -/

namespace Template

variable {fields : Fields Value} {t : Template} {p : DotPath} {v : Value} {engine : Engine}
  {values : List Value} {f : Failure}

/-- A placeholder that exceeds a limit, where its path is written or
followed. -/
def PathExceeds (l : Limit) (fields : Fields Value) (p : DotPath) : Prop :=
  p.IsLong ∧ l = .longInteger ∨
    ¬p.IsLong ∧ ∃ v, Fields.get? p.head fields = some v ∧ DotPath.Exceeds l p.rest v

theorem resolvePath_eq_limit_iff :
    resolvePath fields p = .error (.limit l) ↔ PathExceeds l fields p := by
  have hlong := fun l => DotPath.format_eq_error_iff (p := p) (l := l)
  rw [resolvePath, PathExceeds]
  cases hformat : DotPath.format p.steps with
  | error l' =>
      obtain ⟨hp, rfl⟩ := (hlong l').mp hformat
      simp [hp, eq_comm]
  | ok text =>
      have hp : ¬p.IsLong := fun h => by
        rw [(hlong .longInteger).mpr ⟨h, rfl⟩] at hformat
        cases hformat
      simp only [DotPath.resolve]
      cases Fields.get? p.head fields <;> simp [hp, DotPath.follow_eq_limit_iff]

theorem resolvePath_isOrdinary {f : Failure} (h : resolvePath fields p = .error f) :
    f.IsOrdinary := by
  unfold resolvePath at h
  split at h
  · cases h
    exact .inr ⟨_, rfl⟩
  · unfold DotPath.resolve at h
    split at h
    · exact DotPath.follow_isOrdinary h
    · cases h
      exact .inl rfl

theorem insertion_eq_error_iff : insertion v = .error l ↔ v.HasLongInteger ∧ l = .longInteger := by
  unfold insertion
  split
  · simp [Value.HasLongInteger]
  · exact Value.json_eq_error_iff v l

/-- What escapes from an expression of a tag: the engine's own exception, or a
value that is too long to be printed. -/
def PrintedEscapes (f : Failure) : Except Exception Printed → Prop
  | .error e => f = .raised e
  | .ok (.value v) => v.HasLongInteger ∧ f = .limit .longInteger
  | .ok (.object _) => False

theorem printedText_eq_error_iff {r : Except Exception Printed} :
    printedText r = .error f ↔ PrintedEscapes f r := by
  cases r with
  | error e =>
      rw [printedText, PrintedEscapes, Except.error.injEq]
      exact eq_comm
  | ok printed =>
      have hlong : ∀ w : Value, (insertion w).mapError Failure.limit = .error f ↔
          w.HasLongInteger ∧ f = .limit .longInteger := fun w =>
        mapError_long_iff fun l => insertion_eq_error_iff
      cases printed with
      | value w => exact hlong w
      | object text =>
          have hjson : (Value.str text).json = .ok (Text.quoteJson text) := rfl
          simp [printedText, Printed.insertion, PrintedEscapes, hjson]

/-- What escapes from a piece: nothing from a text; from a slot, that its value
is too long to be printed; from a tag, what escapes from the first of its
expressions that is not printed. -/
def PieceEscapes (engine : Engine) (paths : List DotPath) (fields : Fields Value)
    (values : List Value) (f : Failure) : Piece → Prop
  | .text _ => False
  | .slot n => (values[n]?.getD .null).HasLongInteger ∧ f = .limit .longInteger
  | .print source => ∃ before r after, engine.print source paths fields = before ++ r :: after ∧
      (∀ q ∈ before, ∃ text, printedText q = .ok text) ∧ PrintedEscapes f r

theorem pieceText_eq_error_iff {paths : List DotPath} {piece : Piece} :
    pieceText engine paths fields values piece = .error f ↔
      PieceEscapes engine paths fields values f piece := by
  cases piece with
  | text cs => simp [pieceText, PieceEscapes]
  | slot n => exact mapError_long_iff fun l => insertion_eq_error_iff
  | print source =>
      rw [pieceText, PieceEscapes, bind_ok_eq_error_iff, mapM_eq_error_iff]
      simp only [printedText_eq_error_iff]

theorem mem_sources {source : TagSource} : source ∈ t.sources ↔ .print source ∈ t.pieces := by
  unfold sources
  rw [List.mem_filterMap]
  constructor
  · rintro ⟨piece, hpiece, h⟩
    cases piece <;> cases h
    exact hpiece
  · exact fun h => ⟨_, h, rfl⟩

/-- What escapes once the values of the placeholders are found: what the first
tag that cannot be compiled raises, or what escapes from the first piece that is
not printed. -/
def OutputEscapes (engine : Engine) (t : Template) (fields : Fields Value) (values : List Value)
    (f : Failure) : Prop :=
  (∃ before source after, t.sources = before ++ source :: after ∧
      (∀ other ∈ before, engine.compile other = .ok ()) ∧
      ∃ e, engine.compile source = .error e ∧ f = .raised e) ∨
    (∀ source ∈ t.sources, engine.compile source = .ok ()) ∧
      ∃ before piece after, t.pieces = before ++ piece :: after ∧
        (∀ other ∈ before, ∃ text, pieceText engine t.paths fields values other = .ok text) ∧
        PieceEscapes engine t.paths fields values f piece

theorem output_eq_error_iff :
    t.output engine fields values = .error f ↔ OutputEscapes engine t fields values f := by
  have hcompile : (forM t.sources engine.compile).mapError Failure.raised = .error f ↔
      ∃ before source after, t.sources = before ++ source :: after ∧
        (∀ other ∈ before, engine.compile other = .ok ()) ∧
        ∃ e, engine.compile source = .error e ∧ f = .raised e := by
    rw [mapError_eq_error_iff]
    simp only [forM_eq_error_iff]
    constructor
    · rintro ⟨e, ⟨before, source, after, hsources, hbefore, he⟩, rfl⟩
      exact ⟨before, source, after, hsources, hbefore, e, he, rfl⟩
    · rintro ⟨before, source, after, hsources, hbefore, e, he, rfl⟩
      exact ⟨e, ⟨before, source, after, hsources, hbefore, he⟩, rfl⟩
  rw [output, OutputEscapes, bind_eq_error_iff, hcompile]
  refine or_congr_right ?_
  rw [bind_ok_eq_error_iff, mapM_eq_error_iff]
  simp only [pieceText_eq_error_iff, mapError_eq_ok_iff, forM_eq_ok_iff]
  exact ⟨fun ⟨_, hok, hpieces⟩ => ⟨hok, hpieces⟩, fun ⟨hok, hpieces⟩ => ⟨(), hok, hpieces⟩⟩

/-- What escapes from rendering a template: that the path of the first
placeholder without a value exceeds a limit, or what escapes once all values are
found. -/
def Escapes (engine : Engine) (t : Template) (fields : Fields Value) (f : Failure) : Prop :=
  (∃ before p after, t.paths = before ++ p :: after ∧
      (∀ q ∈ before, ∃ v, resolvePath fields q = .ok v) ∧
      ∃ l, f = .limit l ∧ PathExceeds l fields p) ∨
    ∃ values, t.paths.mapM (resolvePath fields) = .ok values ∧
      OutputEscapes engine t fields values f

theorem render_eq_error_iff (hf : f.isOwn = false) :
    t.render engine fields = .error f ↔ t.Escapes engine fields f := by
  have hpath : ∀ p, resolvePath fields p = .error f ↔ ∃ l, f = .limit l ∧ PathExceeds l fields p :=
    fun p => Failure.eq_error_iff (fun _ => resolvePath_isOrdinary)
      (fun _ => resolvePath_eq_limit_iff) hf
  rw [render, Escapes, bind_eq_error_iff, mapM_eq_error_iff]
  simp only [hpath, output_eq_error_iff]

end Template

end Conduit
