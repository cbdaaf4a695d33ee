import Conduit.Proofs.Scope
import Conduit.Scope.Tree

/-!
# Trees of scopes only grow

A name that has a value at a node keeps it, whatever scopes are made and
whatever is bound at any node afterwards. A binding at a node is seen by the
nodes inside it, so it could change what one of these sees; it does not,
because a name that a node inside sees from further out is visible at the node
itself, where binding it is refused, and a name that it sees from further in
hides the new binding.

So the one lemma that matters says what a node sees after a binding
(`get?_bind`). It is an induction from a node outwards: the value of a name is
the node's own, or else that of the node around it (`get?_node`).
-/

namespace Conduit.ScopeTree

variable {t t' : ScopeTree} {i j : Nat} {name other : String} {v : Value}

/-! ## Changes -/

/-- A change to a collection of trees: a scope inside no other one, a scope
inside a node, or a binding at a node. -/
inductive Change where
  | create (fields : Fields Value)
  | child (i : Nat) (bindings : Fields Value)
  | bind (i : Nat) (name : String) (v : Value)

def change (t : ScopeTree) : Change → Except Failure ScopeTree
  | .create fields => .ok ⟨t.nodes ++ [⟨fields, none⟩]⟩
  | .child i bindings => .ok (t.child i bindings)
  | .bind i name v => t.bind i name v

/-- The trees after a change; one that fails changes nothing. -/
def next (t : ScopeTree) (c : Change) : ScopeTree :=
  match t.change c with
  | .ok t' => t'
  | .error _ => t

def after (t : ScopeTree) : List Change → ScopeTree
  | [] => t
  | c :: rest => after (t.next c) rest

/-- A node and the nodes around it, from the innermost one outwards. -/
def enclosing (t : ScopeTree) (i : Nat) : List Nat :=
  match t.nodes[i]? with
  | none => []
  | some node =>
    i :: match node.parent with
      | some p => if p < i then enclosing t p else []
      | none => []
termination_by i

/-- The number of the node around one, if there is such a node. -/
def around? (node : ScopeNode) (i : Nat) : Option Nat := node.parent.filter (· < i)

/-! ## From a node outwards -/

theorem around?_lt {node : ScopeNode} {p : Nat} (h : p ∈ around? node i) : p < i := by
  have hp := (Option.mem_filter_iff.mp h).2
  simpa using hp

theorem framesOf_of_none (h : t.nodes[i]? = none) : t.framesOf i = [] := by
  rw [framesOf, h]

theorem enclosing_of_none (h : t.nodes[i]? = none) : t.enclosing i = [] := by
  rw [enclosing, h]

theorem framesOf_node {node : ScopeNode} (h : t.nodes[i]? = some node) :
    t.framesOf i = node.own :: ((around? node i).map t.framesOf).getD [] := by
  rw [framesOf, h, around?]
  dsimp only
  cases node.parent with
  | none => rfl
  | some p => by_cases hp : p < i <;> simp [Option.filter, hp]

theorem enclosing_node {node : ScopeNode} (h : t.nodes[i]? = some node) :
    t.enclosing i = i :: ((around? node i).map t.enclosing).getD [] := by
  rw [enclosing, h, around?]
  dsimp only
  cases node.parent with
  | none => rfl
  | some p => by_cases hp : p < i <;> simp [Option.filter, hp]

theorem get?_scope (t : ScopeTree) (i : Nat) (name : String) :
    (t.scope i).get? name = Scope.lookup name (t.framesOf i) := by
  unfold scope
  cases t.framesOf i <;> rfl

theorem get?_of_none (h : t.nodes[i]? = none) : (t.scope i).get? name = none := by
  rw [get?_scope, framesOf_of_none h]
  rfl

/-- The value of a name at a node is the node's own, or else that at the node
around it. -/
theorem get?_node {node : ScopeNode} (h : t.nodes[i]? = some node) :
    (t.scope i).get? name = (node.own.get? name).or
      ((around? node i).bind fun p => (t.scope p).get? name) := by
  rw [get?_scope, framesOf_node h, Scope.lookup]
  have houter : Scope.lookup name (((around? node i).map t.framesOf).getD []) =
      (around? node i).bind fun p => (t.scope p).get? name := by
    cases around? node i with
    | none => rfl
    | some p => exact (get?_scope t p name).symm
  rw [houter]
  cases node.own.get? name <;> rfl

/-- The nodes around a node were made before it. -/
theorem le_of_mem_enclosing (h : j ∈ t.enclosing i) : j ≤ i := by
  induction i using Nat.strongRecOn with
  | ind i ih =>
      cases hnode : t.nodes[i]? with
      | none =>
          rw [enclosing_of_none hnode] at h
          cases h
      | some node =>
          rw [enclosing_node hnode] at h
          rcases List.mem_cons.mp h with rfl | h
          · exact Nat.le_refl _
          · cases hp : around? node i with
            | none =>
                rw [hp] at h
                cases h
            | some p =>
                rw [hp] at h
                have hlt : p < i := around?_lt hp
                have hle : j ≤ p := ih p hlt h
                omega

/-- Nodes of one tree whose frames do not change look the same. -/
theorem scope_congr (h : t'.framesOf j = t.framesOf j) : t'.scope j = t.scope j := by
  unfold scope
  rw [h]

/-! ## A further scope -/

/-- What stands behind the nodes of a tree does not matter to them. -/
theorem framesOf_append {more : List ScopeNode} (h : j < t.nodes.length) :
    framesOf ⟨t.nodes ++ more⟩ j = t.framesOf j := by
  induction j using Nat.strongRecOn with
  | ind j ih =>
      have hnode : t.nodes[j]? = some t.nodes[j] := List.getElem?_eq_getElem h
      have hnode' : (t.nodes ++ more)[j]? = some t.nodes[j] := by
        rw [List.getElem?_append_left h, hnode]
      rw [framesOf_node hnode, framesOf_node (t := ⟨t.nodes ++ more⟩) hnode']
      cases hp : around? t.nodes[j] j with
      | none => rfl
      | some p =>
          have hlt : p < j := around?_lt hp
          have hframes := ih p hlt (by omega)
          simp [hframes]

/-! ## A further binding -/

theorem nodes_bind (h : t.bind i name v = .ok t') :
    (t'.nodes = t.nodes.modify i fun node =>
        { node with own := Fields.set name v (t.scope i).own }) ∧
      (t.scope i).get? name = none := by
  unfold bind at h
  split at h
  · cases h
  · next s hs =>
      cases h
      unfold Scope.bind at hs
      split at hs
      · cases hs
      · next hcontains =>
          cases hs
          refine ⟨rfl, ?_⟩
          simpa [Scope.contains] using hcontains

theorem getElem?_bind (h : t.bind i name v = .ok t') (j : Nat) :
    t'.nodes[j]? = t.nodes[j]?.map fun node =>
      if i = j then { node with own := Fields.set name v (t.scope i).own } else node := by
  rw [(nodes_bind h).1, List.getElem?_modify]
  rfl

/-- A binding leaves what is not inside its node as it is. -/
theorem framesOf_bind (h : t.bind i name v = .ok t') (hj : i ∉ t.enclosing j) :
    t'.framesOf j = t.framesOf j := by
  induction j using Nat.strongRecOn with
  | ind j ih =>
      have hnode' := getElem?_bind h j
      cases hnode : t.nodes[j]? with
      | none =>
          rw [hnode, Option.map_none] at hnode'
          rw [framesOf_of_none hnode, framesOf_of_none hnode']
      | some node =>
          rw [enclosing_node hnode, List.mem_cons, not_or] at hj
          rw [hnode, Option.map_some, if_neg hj.1] at hnode'
          rw [framesOf_node hnode, framesOf_node hnode']
          cases hp : around? node j with
          | none => rfl
          | some p =>
              rw [hp] at hj
              have hframes := ih p (around?_lt hp) hj.2
              simp [hframes]

/-- After a binding a node sees what it saw before, and besides that the bound
name, if it is the node of the binding or inside it. -/
theorem get?_bind (h : t.bind i name v = .ok t') (j : Nat) (other : String) :
    (t'.scope j).get? other = ((t.scope j).get? other).or
      (if other = name ∧ i ∈ t.enclosing j then some v else none) := by
  induction j using Nat.strongRecOn with
  | ind j ih =>
      have hnode' := getElem?_bind h j
      cases hnode : t.nodes[j]? with
      | none =>
          rw [hnode, Option.map_none] at hnode'
          rw [get?_of_none hnode, get?_of_none hnode', enclosing_of_none hnode]
          simp
      | some node =>
          rw [hnode, Option.map_some] at hnode'
          by_cases hij : i = j
          · subst hij
            rw [if_pos rfl] at hnode'
            -- The nodes around the one that is changed see no change.
            have houter : ((around? node i).bind fun p => (t'.scope p).get? other) =
                (around? node i).bind fun p => (t.scope p).get? other := by
              cases hp : around? node i with
              | none => rfl
              | some p =>
                  have hlt : p < i := around?_lt hp
                  have hout : i ∉ t.enclosing p := by
                    intro hmem
                    have := le_of_mem_enclosing hmem
                    omega
                  show (t'.scope p).get? other = (t.scope p).get? other
                  rw [scope_congr (framesOf_bind h hout)]
            have hown : (t.scope i).own = node.own := by
              unfold scope
              rw [framesOf_node hnode]
            have hself : i ∈ t.enclosing i := by
              rw [enclosing_node hnode]
              exact List.mem_cons_self
            have hfresh := (nodes_bind h).2
            rw [get?_node hnode] at hfresh
            rw [get?_node hnode', get?_node hnode]
            show ((Fields.set name v (t.scope i).own).get? other).or
              ((around? node i).bind fun p => (t'.scope p).get? other) = _
            rw [houter, hown, Fields.get?_set]
            by_cases hname : other = name
            · subst hname
              rw [if_pos rfl, if_pos ⟨rfl, hself⟩, hfresh]
              rfl
            · rw [if_neg (Ne.symm hname), if_neg fun hand => hname hand.1, Option.or_none]
          · rw [if_neg hij] at hnode'
            rw [get?_node hnode', get?_node hnode, enclosing_node hnode, Option.or_assoc]
            congr 1
            cases hp : around? node j with
            | none => simp [hij]
            | some p =>
                have hrest := ih p (around?_lt hp)
                simpa [hij] using hrest

/-! ## All changes -/

/-- A node that sees a name is there. -/
theorem lt_length_of_get? (h : (t.scope i).get? name = some v) : i < t.nodes.length := by
  cases hnode : t.nodes[i]? with
  | none =>
      rw [get?_of_none hnode] at h
      cases h
  | some node => exact (List.getElem?_eq_some_iff.mp hnode).1

/-- No change takes the value of a name away or puts another in its place. -/
theorem get?_next (h : (t.scope i).get? name = some v) (c : Change) :
    ((t.next c).scope i).get? name = some v := by
  have hlt := lt_length_of_get? h
  have hmore : ∀ more : List ScopeNode,
      (scope ⟨t.nodes ++ more⟩ i).get? name = some v := by
    intro more
    rw [scope_congr (framesOf_append hlt)]
    exact h
  unfold next
  cases c with
  | create fields => exact hmore _
  | child j bindings => exact hmore _
  | bind j other w =>
      cases hbind : t.bind j other w with
      | error f => simpa [change, hbind] using h
      | ok t' =>
          simp only [change, hbind]
          rw [get?_bind hbind, h]
          rfl

theorem get?_after (h : (t.scope i).get? name = some v) (changes : List Change) :
    ((t.after changes).scope i).get? name = some v := by
  induction changes generalizing t with
  | nil => exact h
  | cons c rest ih => exact ih (get?_next h c)

theorem change_bind_eq_error (t : ScopeTree) (i : Nat) (name : String) (v : Value) :
    t.change (.bind i name v) = .error (.duplicateBinding name) ↔
      (t.scope i).contains name = true := by
  show t.bind i name v = _ ↔ _
  rw [← Scope.bind_eq_duplicate_iff (v := v), bind]
  cases (t.scope i).bind name v with
  | ok s => exact iff_of_false (fun h => by cases h) (fun h => by cases h)
  | error f => exact ⟨fun h => by rw [Except.error.inj h], fun h => by rw [Except.error.inj h]⟩

/-- The only failure is that of a name that is visible. -/
theorem contains_of_bind_eq_error {f : Failure} (h : t.bind i name v = .error f) :
    (t.scope i).contains name = true := by
  unfold bind Scope.bind at h
  split at h
  · next hs =>
      split at hs
      · assumption
      · cases hs
  · cases h

theorem next_of_error {c : Change} {f : Failure} (h : t.change c = .error f) : t.next c = t := by
  rw [next, h]

/-- A binding at a node changes nothing for the nodes around it. -/
theorem not_mem_enclosing (h : j ∈ t.enclosing i) (hne : j ≠ i) : i ∉ t.enclosing j := by
  intro hmem
  have hle := le_of_mem_enclosing h
  have hle' := le_of_mem_enclosing hmem
  omega

/-- Whatever is done to trees of scopes, no name that has a value at a node
ever loses it or gets another one. A binding is refused exactly if its name is
visible at its node, and then nothing changes; else it adds its name at its
node and inside it, where no nearer binding hides it. It changes no node
around its own and none in another branch or tree, and a scope that is made
changes no other one. -/
theorem after_appendOnly (t : ScopeTree) :
    (∀ (changes : List Change) (i : Nat) (name : String) (v : Value),
        (t.scope i).get? name = some v → ((t.after changes).scope i).get? name = some v) ∧
      (∀ (i : Nat) (name : String) (v : Value),
        (t.change (.bind i name v) = .error (.duplicateBinding name) ↔
            (t.scope i).contains name = true) ∧
          ((t.scope i).contains name = true → t.next (.bind i name v) = t) ∧
          ((t.scope i).contains name = false → ∀ j other,
            ((t.next (.bind i name v)).scope j).get? other = ((t.scope j).get? other).or
              (if other = name ∧ i ∈ t.enclosing j then some v else none)) ∧
          ∀ j, (j ∈ t.enclosing i ∧ j ≠ i ∨ i ∉ t.enclosing j) →
            (t.next (.bind i name v)).scope j = t.scope j) ∧
      ∀ (i j : Nat) (fields : Fields Value), j < t.nodes.length →
        (t.next (.child i fields)).scope j = t.scope j ∧
          (t.next (.create fields)).scope j = t.scope j := by
  refine ⟨fun changes i name v h => get?_after h changes, ?_, ?_⟩
  · intro i name v
    have hiff := change_bind_eq_error t i name v
    refine ⟨hiff, fun hcontains => next_of_error (hiff.mpr hcontains), ?_, ?_⟩
    · intro hcontains j other
      cases hbind : t.bind i name v with
      | error f =>
          have hvisible := contains_of_bind_eq_error hbind
          rw [hcontains] at hvisible
          cases hvisible
      | ok t' =>
          have hnext : t.next (.bind i name v) = t' := by rw [next, change, hbind]
          rw [hnext]
          exact get?_bind hbind j other
    · intro j hj
      have hout : i ∉ t.enclosing j := by
        rcases hj with ⟨hmem, hne⟩ | hout
        · exact not_mem_enclosing hmem hne
        · exact hout
      cases hbind : t.bind i name v with
      | error f => rw [next_of_error (t := t) (c := .bind i name v) hbind]
      | ok t' =>
          have hnext : t.next (.bind i name v) = t' := by rw [next, change, hbind]
          rw [hnext]
          exact scope_congr (framesOf_bind hbind hout)
  · intro i j fields hj
    exact ⟨scope_congr (framesOf_append hj), scope_congr (framesOf_append hj)⟩

end Conduit.ScopeTree
