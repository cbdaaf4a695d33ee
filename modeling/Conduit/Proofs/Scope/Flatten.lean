import Conduit.Proofs.Query.Reader
import Conduit.Proofs.Scope.Tree
import Conduit.Query.Resolve

/-!
# Scopes as one lot of fields

A name is looked up from the innermost frame outwards, and frames are flattened
from the outermost one inwards, each written over those around it. Both find the
same values, since no frame gives a name twice. But a name that is written again
stays where it was written first: a name that an inner frame hides stands where the
outermost frame has it, with the inner value.
-/

namespace Conduit

namespace Scope

variable {name other : String} {frame : Fields Value} {frames outer : List (Fields Value)}

/-! ## Where a name stands -/

/-- The place of a name: how many frames are around the outermost one that has
it, and how many names come before it there. -/
def place? (name : String) : List (Fields Value) → Option (Nat × Nat)
  | [] => none
  | frame :: outer =>
    match place? name outer with
    | some p => some p
    | none =>
      if name ∈ frame.names then some (outer.length, frame.names.idxOf name) else none

/-- Both names have a place, the first one further out, or earlier in the same
frame. -/
def Before (frames : List (Fields Value)) (name other : String) : Prop :=
  ∃ p ∈ place? name frames, ∃ q ∈ place? other frames, p.1 < q.1 ∨ p.1 = q.1 ∧ p.2 < q.2

theorem Before.ne (h : Before frames name other) : name ≠ other := by
  rintro rfl
  obtain ⟨p, hp, q, hq, hlt⟩ := h
  obtain rfl : p = q := Option.some.inj (hp.symm.trans hq)
  omega

theorem place?_lt {p : Nat × Nat} (h : place? name frames = some p) : p.1 < frames.length := by
  induction frames with
  | nil => cases h
  | cons frame outer ih =>
      rw [place?] at h
      split at h
      · next q hq =>
          cases h
          exact Nat.lt_succ_of_lt (ih hq)
      · split at h
        · cases h
          exact Nat.lt_succ_self _
        · cases h

theorem place?_eq_none_iff : place? name frames = none ↔ ∀ frame ∈ frames, name ∉ frame.names := by
  induction frames with
  | nil => simp [place?]
  | cons frame outer ih =>
      rw [place?, List.forall_mem_cons, ← ih]
      split
      · next p hp => simp [hp]
      · next hnone => simp [hnone]

theorem lookup_eq_none_iff : lookup name frames = none ↔ ∀ frame ∈ frames, name ∉ frame.names := by
  induction frames with
  | nil => simp [lookup]
  | cons frame outer ih =>
      rw [lookup, List.forall_mem_cons, ← ih, ← Fields.get?_eq_none_iff]
      cases Fields.get? name frame <;> simp

/-- A name that a frame further out has stands there. -/
theorem place?_cons_of_some {p : Nat × Nat} (h : place? name outer = some p) :
    place? name (frame :: outer) = some p := by
  rw [place?, h]

theorem place?_cons_of_none (h : place? name outer = none) (hname : name ∈ frame.names) :
    place? name (frame :: outer) = some (outer.length, frame.names.idxOf name) := by
  rw [place?, h, if_pos hname]

theorem Before.cons (h : Before outer name other) : Before (frame :: outer) name other := by
  obtain ⟨p, hp, q, hq, hlt⟩ := h
  exact ⟨p, place?_cons_of_some hp, q, place?_cons_of_some hq, hlt⟩

/-! ## The names of all frames -/

theorem mem_names_flatten (h : ∀ frame ∈ frames, frame.names.Nodup) :
    name ∈ (flatten frames).names ↔ (place? name frames).isSome := by
  rw [← Fields.contains_iff_mem_names, Fields.contains, get?_flatten h, Option.isSome_iff_ne_none,
    Option.isSome_iff_ne_none, Ne, Ne, lookup_eq_none_iff, place?_eq_none_iff]

theorem pairwise_idxOf {names : List String} (h : names.Nodup) :
    names.Pairwise fun name other => names.idxOf name < names.idxOf other := by
  rw [List.pairwise_iff_getElem]
  intro i j hi hj hij
  rwa [h.idxOf_getElem i hi, h.idxOf_getElem j hj]

/-- Flattened frames give the names in the order of their places. -/
theorem names_flatten_pairwise (h : ∀ frame ∈ frames, frame.names.Nodup) :
    (flatten frames).names.Pairwise (Before frames) := by
  induction frames with
  | nil => exact .nil
  | cons frame outer ih =>
      obtain ⟨hframe, houter⟩ := List.forall_mem_cons.mp h
      have hplace : ∀ name ∈ frame.names.filter (· ∉ (flatten outer).names),
          place? name (frame :: outer) = some (outer.length, frame.names.idxOf name) := by
        intro name hname
        obtain ⟨hmem, hnew⟩ := List.mem_filter.mp hname
        refine place?_cons_of_none ?_ hmem
        rw [decide_eq_true_eq, mem_names_flatten houter] at hnew
        simpa using hnew
      rw [flatten, Fields.names_overlay _ hframe]
      refine List.pairwise_append.mpr ⟨(ih houter).imp Before.cons, ?_, ?_⟩
      · -- Of the names that are new the frame itself gives the order.
        refine ((pairwise_idxOf hframe).filter _).imp_of_mem fun hname hother hlt => ?_
        exact ⟨_, hplace _ hname, _, hplace _ hother, .inr ⟨rfl, hlt⟩⟩
      · intro name hname other hother
        obtain ⟨p, hp⟩ := Option.isSome_iff_exists.mp ((mem_names_flatten houter).mp hname)
        exact ⟨p, place?_cons_of_some hp, _, hplace other hother, .inl (place?_lt hp)⟩

/-! ## Paths -/

/-- Steps that are followed as segments fail as they do by themselves. -/
theorem resolve_steps {P : Type} (path : String) (steps : List Step) (v : Value) :
    Segment.resolve path (steps.map (.step (P := P))) v =
      (DotPath.follow path steps v).mapError .failure := by
  induction steps generalizing v with
  | nil => rfl
  | cons s rest ih =>
      rw [List.map_cons, Segment.resolve, DotPath.follow]
      cases s.follow path v with
      | error f => rfl
      | ok w => exact ih w

/-- A path leads to the same from a scope as from the object of all its names. -/
theorem resolve_toFields {s : Scope} (h : s.IsDistinct) {P : Type} {text : String} {p : DotPath}
    (hp : DotPath.parse text = .ok p) :
    Segment.resolve text (p.steps.map (.step (P := P))) (.obj s.toFields) =
      (s.resolve p).mapError .failure := by
  have hfield : (Value.obj s.toFields).field? p.head = s.get? p.head := get?_toFields h
  rw [resolve_steps, DotPath.steps, DotPath.follow, Step.follow, hfield, resolve,
    DotPath.text_of_parse hp]
  · cases s.get? p.head <;> rfl
  · nofun

end Scope

/-! ## Trees -/

namespace ScopeTree

variable {t : ScopeTree} {i : Nat} {changes : List Change}

/-- A change gives no name twice. -/
def Change.NamesOnce : Change → Prop
  | .create fields => fields.names.Nodup
  | .child _ bindings => bindings.names.Nodup
  | .bind _ _ _ => True

instance (c : Change) : Decidable c.NamesOnce := by
  cases c <;> unfold Change.NamesOnce <;> infer_instance

/-- The names that a change binds at node `i`, in order: all of them if it makes the
node, and one that is bound there, unless it is visible there. -/
def added (t : ScopeTree) (i : Nat) : Change → List String
  | .create fields => if i = t.nodes.length then fields.names else []
  | .child _ bindings => if i = t.nodes.length then bindings.names else []
  | .bind j name _ =>
    if j = i ∧ i < t.nodes.length ∧ (t.scope i).contains name = false then [name] else []

/-- The names that changes bind at node `i`, in the order in which they are bound. -/
def bound (t : ScopeTree) (i : Nat) : List Change → List String
  | [] => []
  | c :: rest => t.added i c ++ (t.next c).bound i rest

theorem own_scope (t : ScopeTree) (i : Nat) :
    (t.scope i).own = (t.nodes[i]?.map ScopeNode.own).getD [] := by
  unfold scope
  cases hnode : t.nodes[i]? with
  | none => rw [framesOf_of_none hnode]; rfl
  | some node => rw [framesOf_node hnode]; rfl

theorem names_own_append (t : ScopeTree) (i : Nat) (node : ScopeNode) :
    ((scope ⟨t.nodes ++ [node]⟩ i).own).names =
      (t.scope i).own.names ++ if i = t.nodes.length then node.own.names else [] := by
  rw [own_scope, own_scope]
  rcases Nat.lt_trichotomy i t.nodes.length with hi | rfl | hi
  · rw [List.getElem?_append_left hi, if_neg (by omega), List.append_nil]
  · simp [Fields.names]
  · rw [List.getElem?_eq_none (by simp; omega), List.getElem?_eq_none (by omega),
      if_neg (by omega)]
    rfl

theorem not_mem_names_own {name : String} (h : (t.scope i).get? name = none) :
    name ∉ (t.scope i).own.names :=
  Scope.lookup_eq_none_iff.mp h _ List.mem_cons_self

/-- A change adds its names behind those that a node has. -/
theorem names_own_next (t : ScopeTree) (i : Nat) (c : Change) :
    ((t.next c).scope i).own.names = (t.scope i).own.names ++ t.added i c := by
  cases c with
  | create fields => exact names_own_append t i ⟨fields, none⟩
  | child j bindings => exact names_own_append t i ⟨bindings, some j⟩
  | bind j name v =>
      rw [added]
      cases hbind : t.bind j name v with
      | error f =>
          rw [next_of_error (t := t) (c := .bind j name v) hbind, if_neg, List.append_nil]
          rintro ⟨rfl, -, hnew⟩
          rw [contains_of_bind_eq_error hbind] at hnew
          cases hnew
      | ok t' =>
          have hnext : t.next (.bind j name v) = t' := by rw [next, change, hbind]
          rw [hnext, own_scope, own_scope, getElem?_bind hbind]
          cases hnode : t.nodes[i]? with
          | none =>
              have hlength := List.getElem?_eq_none_iff.mp hnode
              rw [if_neg fun h => Nat.not_lt.mpr hlength h.2.1]
              rfl
          | some node =>
              obtain ⟨hlength, -⟩ := List.getElem?_eq_some_iff.mp hnode
              have hown : (t.scope i).own = node.own := by rw [own_scope, hnode]; rfl
              by_cases hj : j = i
              · subst hj
                have hfresh := (nodes_bind hbind).2
                have hnew : (t.scope j).contains name = false := by rw [Scope.contains, hfresh]; rfl
                have hnot := not_mem_names_own hfresh
                rw [hown] at hnot
                rw [if_pos ⟨rfl, hlength, hnew⟩, hown]
                simp only [Option.map_some, Option.getD_some, if_pos]
                rw [Fields.names_set, if_neg hnot]
              · rw [if_neg fun h => hj h.1, List.append_nil]
                simp only [Option.map_some, Option.getD_some, if_neg hj]

/-- The names that changes bind at a node are all that come behind its own ones. -/
theorem names_own_after (t : ScopeTree) (i : Nat) (changes : List Change) :
    ((t.after changes).scope i).own.names = (t.scope i).own.names ++ t.bound i changes := by
  induction changes generalizing t with
  | nil => exact (List.append_nil _).symm
  | cons c rest ih =>
      show (((t.next c).after rest).scope i).own.names = _
      rw [ih, names_own_next, bound, List.append_assoc]

/-- No node has a name twice. -/
def NamesOnce (t : ScopeTree) : Prop := ∀ i, (t.scope i).own.names.Nodup

theorem NamesOnce.next (h : t.NamesOnce) {c : Change} (hc : c.NamesOnce) :
    (t.next c).NamesOnce := by
  intro i
  -- A node that is not there yet has no names.
  have hmade : i = t.nodes.length → (t.scope i).own.names = [] := by
    rintro rfl
    rw [own_scope, List.getElem?_eq_none (Nat.le_refl _)]
    rfl
  rw [names_own_next]
  cases c with
  | create fields =>
      rw [added]
      split
      · next hi => rwa [hmade hi]
      · simpa using h i
  | child j bindings =>
      rw [added]
      split
      · next hi => rwa [hmade hi]
      · simpa using h i
  | bind j name v =>
      rw [added]
      split
      · next hnew =>
          refine List.nodup_append.mpr ⟨h i, by simp, fun other hother name' hname heq => ?_⟩
          rw [List.mem_singleton.mp hname] at heq
          have hfree : (t.scope i).get? name = none := by simpa [Scope.contains] using hnew.2.2
          exact not_mem_names_own hfree (heq ▸ hother)
      · simpa using h i

theorem NamesOnce.after (h : t.NamesOnce) (hchanges : ∀ c ∈ changes, c.NamesOnce) :
    (t.after changes).NamesOnce := by
  induction changes generalizing t with
  | nil => exact h
  | cons c rest ih =>
      obtain ⟨hc, hrest⟩ := List.forall_mem_cons.mp hchanges
      exact ih (h.next hc) hrest

/-- The frames of a node are what it and the nodes around it have of their own. -/
theorem framesOf_eq (t : ScopeTree) (i : Nat) :
    t.framesOf i = (t.enclosing i).map fun j => (t.scope j).own := by
  induction i using Nat.strongRecOn with
  | ind i ih =>
      cases hnode : t.nodes[i]? with
      | none => rw [framesOf_of_none hnode, enclosing_of_none hnode]; rfl
      | some node =>
          have hown : (t.scope i).own = node.own := by rw [own_scope, hnode]; rfl
          rw [framesOf_node hnode, enclosing_node hnode, List.map_cons, hown]
          cases hp : around? node i with
          | none => rfl
          | some p => simp [ih p (around?_lt hp)]

theorem frames_scope (h : i < t.nodes.length) :
    (t.scope i).frames = (t.enclosing i).map fun j => (t.scope j).own := by
  rw [← framesOf_eq, scope, framesOf_node (List.getElem?_eq_getElem h)]
  rfl

theorem NamesOnce.isDistinct (h : t.NamesOnce) (i : Nat) : (t.scope i).IsDistinct := by
  intro frame hframe
  rcases Nat.lt_or_ge i t.nodes.length with hi | hi
  · rw [frames_scope hi] at hframe
    obtain ⟨j, -, rfl⟩ := List.mem_map.mp hframe
    exact h j
  · have hscope : t.scope i = ⟨[], []⟩ := by
      rw [scope, framesOf_of_none (List.getElem?_eq_none hi)]
    rw [hscope] at hframe
    rw [List.mem_singleton.mp hframe]
    exact List.nodup_nil

/-- No scopes. -/
def empty : ScopeTree := ⟨[]⟩

theorem namesOnce_empty : empty.NamesOnce := by
  intro i
  rw [own_scope]
  exact List.nodup_nil

/-- However scopes were made and whatever was bound in them, a scope as one lot of
fields has a name exactly if the name is visible, with the value that it is looked up
to. It gives each visible name once: those of a scope further out come first, and of
two in one scope the one that was bound first. A path that can be read leads to the
same value from the scope and from these fields, or fails in the same way. -/
theorem after_flattens {changes : List Change} (h : ∀ c ∈ changes, c.NamesOnce) (i : Nat) :
    let t := empty.after changes
    let s := t.scope i
    (∀ name, s.toFields.contains name = s.contains name ∧
        s.toFields.get? name = s.get? name) ∧
      ((∀ name, name ∈ s.names ↔ s.contains name = true) ∧ s.names.Nodup ∧
        s.names.Pairwise (Scope.Before s.frames)) ∧
      ((∀ j, (t.scope j).own.names = empty.bound j changes) ∧ (i < t.nodes.length →
        s.frames = (t.enclosing i).map fun j => (t.scope j).own)) ∧
      ∀ (text : String) (p : DotPath), DotPath.parse text = .ok p →
        Segment.resolve text (p.steps.map (.step (P := Query.Filter))) (.obj s.toFields) =
          (s.resolve p).mapError .failure := by
  intro t s
  have hdistinct : s.IsDistinct := (namesOnce_empty.after h).isDistinct i
  have hcontains : ∀ name, s.toFields.contains name = s.contains name := fun name => by
    rw [Fields.contains, Scope.get?_toFields hdistinct, Scope.contains]
  have hordered := Scope.names_flatten_pairwise hdistinct
  refine ⟨fun name => ⟨hcontains name, Scope.get?_toFields hdistinct⟩,
    ⟨fun name => ?_, hordered.imp Scope.Before.ne, hordered⟩, ⟨fun j => ?_, frames_scope⟩,
    fun text p => Scope.resolve_toFields hdistinct⟩
  · rw [← hcontains, Fields.contains_iff_mem_names]
    rfl
  · rw [names_own_after, own_scope]
    rfl

/-- A scope with two names, one inside it that hides the second of them and binds a
third, a name that is bound outside afterwards, and one that cannot be. -/
def shadowing : List Change :=
  [.create [("user", .str "Ada"), ("item", .int 1)], .child 0 [("item", .int 2), ("row", .null)],
    .bind 0 "total" (.int 7), .bind 1 "user" .null, .bind 1 "last" (.bool true)]

theorem after_flattens_shadowing :
    (∀ c ∈ shadowing, c.NamesOnce) ∧
      ((empty.after shadowing).scope 1).names = ["user", "item", "total", "row", "last"] ∧
      ((empty.after shadowing).scope 1).toFields.get? "item" = some (.int 2) ∧
      ((empty.after shadowing).scope 1).get? "item" = some (.int 2) ∧
      Segment.resolve "item.id" [.step (P := Query.Filter) (.field "item"), .step (.field "id")]
        (.obj ((empty.after shadowing).scope 1).toFields) =
          .error (.failure (.pathNotFound "item.id")) := by
  have hnames : ∀ c ∈ shadowing, c.NamesOnce := by decide
  have hparse : DotPath.parse "item.id" = .ok ⟨"item.id", "item", [.field "id"]⟩ := by cbv
  have hscope : (empty.after shadowing).scope 1 =
      ⟨[("item", .int 2), ("row", .null), ("last", .bool true)],
        [[("user", .str "Ada"), ("item", .int 1), ("total", .int 7)]]⟩ := by cbv
  have hitem : ((empty.after shadowing).scope 1).get? "item" = some (.int 2) := by
    rw [hscope]
    rfl
  obtain ⟨hsame, -, -, hpaths⟩ := after_flattens hnames 1
  refine ⟨hnames, by rw [hscope]; rfl, (hsame "item").2.trans hitem, hitem, ?_⟩
  refine (hpaths "item.id" _ hparse).trans ?_
  rw [hscope]
  rfl

end ScopeTree

end Conduit
