import Conduit.Proofs.Scope
import Conduit.Store
import Mathlib.Data.List.Forall2

/-!
# The history of a store

Calls come to a store one after another. Each call does something to every
document of its collection on its own, and an insertion puts one document
behind the others. So a document has a fate, which is made up of what the
calls after it do to it, and a collection is at any time the list of all
documents that ever came into it, in the order in which they came, less those
that were deleted.

One call is looked at in `documents_perform` and `length_perform`; the whole
history follows from these by induction on the calls.
-/

namespace Conduit.Store

variable {s t : Store} {collection other name : String} {d d' : Document}

/-! ## Calls in a row -/

/-- The store after some calls. -/
def after (s : Store) : List Call → Store
  | [] => s
  | call :: rest => after (s.perform call).2 rest

/-- What a call does to a document of a collection; nothing is left of a
document that it deletes. -/
def touch (collection : String) (call : Call) (d : Document) : Option Document :=
  match call with
  | .query _ _ _ => some d
  | .insert _ _ => some d
  | .update c criteria patch =>
    some (if c = collection ∧ isMatch criteria d then d.overlay patch else d)
  | .delete c criteria => if c = collection ∧ isMatch criteria d then none else some d

/-- What is left of a document after some calls. -/
def fate (collection : String) : List Call → Document → Option Document
  | [], d => some d
  | call :: rest, d => (touch collection call d).bind (fate collection rest)

def isInsertion (collection : String) : Call → Bool
  | .insert c _ => c = collection
  | _ => false

/-- The document that a call brings into a collection, if it brings one. -/
def arrival (s : Store) (collection : String) : Call → List Document
  | .insert c d => if c = collection then [(s.identified d).1] else []
  | _ => []

/-- The documents that calls bring into a collection, each with the calls after
its arrival. -/
def inserted (s : Store) (collection : String) : List Call → List (Document × List Call)
  | [] => []
  | call :: rest =>
    (s.arrival collection call).map (·, rest) ++ inserted (s.perform call).2 collection rest

/-- All documents that are ever in a collection, in the order of their arrival,
each with the calls that come after it. -/
def history (s : Store) (collection : String) (calls : List Call) :
    List (Document × List Call) :=
  (s.documents collection).map (·, calls) ++ s.inserted collection calls

/-- The count that an answer gives. -/
def countOf : Except Value.Unordered Value → Nat
  | .ok (.number (.int n)) => n.toNat
  | _ => 0

/-- The count that a call answers with if it is a deletion in the collection. -/
def deletedBy (s : Store) (collection : String) (call : Call) : Nat :=
  match call with
  | .delete c _ => if c = collection then countOf (s.perform call).1 else 0
  | _ => 0

/-- The counts that the deletions in a collection answer with, all together. -/
def deletedCount (s : Store) (collection : String) : List Call → Nat
  | [] => 0
  | call :: rest => s.deletedBy collection call + deletedCount (s.perform call).2 collection rest

/-! ## One call -/

theorem documents_of_set {rows : List Document}
    (h : t.collections = s.collections.set other rows) :
    t.documents collection = if other = collection then rows else s.documents collection := by
  unfold documents
  rw [h, Fields.get?_set]
  split <;> rfl

section Elsewhere

variable {call : Call} (h : call.collection ≠ collection)
include h

/-- A call leaves the collections that it does not name as they are. -/
theorem documents_perform_of_ne :
    (s.perform call).2.documents collection = s.documents collection := by
  have hset : ∀ {t : Store} {rows : List Document},
      t.collections = s.collections.set call.collection rows →
      t.documents collection = s.documents collection := by
    intro t rows ht
    rw [documents_of_set ht, if_neg h]
  cases call with
  | query c criteria options => rfl
  | insert c document => exact hset rfl
  | update c criteria patch =>
      show (s.update c criteria patch).2.documents collection = _
      unfold update
      split
      · rfl
      · exact hset rfl
  | delete c criteria => exact hset rfl

theorem filterMap_touch_of_ne (rows : List Document) :
    rows.filterMap (touch collection call) = rows := by
  have htouch : touch collection call = some := by
    funext d
    cases call with
    | query c criteria options => rfl
    | insert c document => rfl
    | update c criteria patch =>
        have hc : ¬c = collection := h
        simp [touch, hc]
    | delete c criteria =>
        have hc : ¬c = collection := h
        simp [touch, hc]
  rw [htouch, List.filterMap_some]

theorem arrival_of_ne : s.arrival collection call = [] := by
  cases call with
  | insert c document =>
      have hc : ¬c = collection := h
      rw [arrival, if_neg hc]
  | _ => rfl

theorem deletedBy_of_ne : s.deletedBy collection call = 0 := by
  cases call with
  | delete c criteria =>
      have hc : ¬c = collection := h
      rw [deletedBy, if_neg hc]
  | _ => rfl

end Elsewhere

theorem documents_insert (s : Store) (collection : String) (document : Document) :
    (s.insert collection document).2.documents collection =
      s.documents collection ++ [(s.identified document).1] :=
  (documents_of_set rfl).trans (if_pos rfl)

theorem documents_update (s : Store) (collection : String) (criteria patch : Fields Value) :
    (s.update collection criteria patch).2.documents collection =
      patched criteria patch (s.documents collection) := by
  unfold update
  split
  · next h =>
      have hnone : s.documents collection = [] := by rw [documents, h, Option.getD_none]
      rw [hnone]
      rfl
  · next rows h =>
      have hrows : s.documents collection = rows := by rw [documents, h, Option.getD_some]
      rw [documents_of_set rfl, if_pos rfl, hrows]

theorem documents_delete (s : Store) (collection : String) (criteria : Fields Value) :
    (s.delete collection criteria).2.documents collection =
      (s.documents collection).filter fun d => !isMatch criteria d :=
  (documents_of_set rfl).trans (if_pos rfl)

/-- What a call leaves of the documents of a collection, and what it brings. -/
theorem documents_perform (s : Store) (call : Call) (collection : String) :
    (s.perform call).2.documents collection =
      (s.documents collection).filterMap (touch collection call) ++ s.arrival collection call := by
  by_cases hc : call.collection = collection
  · cases call with
    | query c criteria options =>
        have hkeep : touch collection (.query c criteria options) = some := rfl
        show s.documents collection = _ ++ []
        rw [hkeep, List.filterMap_some, List.append_nil]
    | insert c document =>
        obtain rfl : c = collection := hc
        have hkeep : touch c (.insert c document) = some := rfl
        show (s.insert c document).2.documents c = _
        rw [documents_insert, hkeep, List.filterMap_some, arrival, if_pos rfl]
    | update c criteria patch =>
        obtain rfl : c = collection := hc
        have htouch : touch c (.update c criteria patch) =
            fun d => some (if isMatch criteria d then d.overlay patch else d) := by
          funext d
          simp [touch]
        show (s.update c criteria patch).2.documents c = _ ++ []
        rw [documents_update, htouch, List.append_nil, List.filterMap_eq_map']
        rfl
    | delete c criteria =>
        obtain rfl : c = collection := hc
        have htouch : touch c (.delete c criteria) =
            Option.guard fun d => !isMatch criteria d := by
          funext d
          cases h : isMatch criteria d <;> simp [touch, Option.guard, h]
        show (s.delete c criteria).2.documents c = _ ++ []
        rw [documents_delete, htouch, List.append_nil, List.filterMap_eq_filter]
  · rw [documents_perform_of_ne hc, filterMap_touch_of_ne hc, arrival_of_ne hc, List.append_nil]

/-- What a call deletes is gone, and what it brings is added. -/
theorem length_perform (s : Store) (call : Call) (collection : String) :
    ((s.perform call).2.documents collection).length + s.deletedBy collection call =
      (s.documents collection).length + (s.arrival collection call).length := by
  by_cases hc : call.collection = collection
  · cases call with
    | query c criteria options => rfl
    | insert c document =>
        obtain rfl : c = collection := hc
        show ((s.insert c document).2.documents c).length + 0 = _
        rw [documents_insert, arrival, if_pos rfl, List.length_append]
        rfl
    | update c criteria patch =>
        obtain rfl : c = collection := hc
        show ((s.update c criteria patch).2.documents c).length + 0 = _ + 0
        rw [documents_update, patched, List.length_map]
    | delete c criteria =>
        obtain rfl : c = collection := hc
        have hcount : s.deletedBy c (.delete c criteria) =
            (s.documents c).countP (isMatch criteria) := by
          rw [deletedBy, if_pos rfl]
          rfl
        have hsplit := List.length_eq_countP_add_countP (isMatch criteria) (l := s.documents c)
        simp only [Bool.not_eq_true, Bool.decide_eq_false] at hsplit
        show ((s.delete c criteria).2.documents c).length + _ = _ + 0
        rw [documents_delete, hcount, ← List.countP_eq_length_filter]
        omega
  · rw [documents_perform_of_ne hc, arrival_of_ne hc, deletedBy_of_ne hc, List.length_nil]

theorem length_arrival (s : Store) (collection : String) (call : Call) :
    (s.arrival collection call).length = if isInsertion collection call then 1 else 0 := by
  cases call with
  | insert c document => by_cases hc : c = collection <;> simp [arrival, isInsertion, hc]
  | _ => rfl

/-! ## Fields that stay -/

theorem idField_perform (s : Store) (call : Call) : (s.perform call).2.idField = s.idField := by
  cases call with
  | update c criteria patch =>
      show (s.update c criteria patch).2.idField = _
      unfold update
      split <;> rfl
  | _ => rfl

theorem contains_set (d : Document) (v : Value) : (d.set name v).contains name = true := by
  rw [Fields.contains, Fields.get?_set, if_pos rfl]
  rfl

theorem contains_identified (s : Store) (d : Document) :
    (s.identified d).1.contains s.idField = true := by
  unfold identified
  split
  · next h => exact h
  · exact contains_set d _

/-- Writing over a document takes no field from it. -/
theorem contains_overlay {patch : Fields Value} (h : d.contains name = true) :
    (d.overlay patch).contains name = true := by
  rw [Fields.contains] at h
  rw [Fields.contains, Fields.get?_overlay, Option.isSome_or, h, Bool.or_true]

theorem contains_of_touch {call : Call} (h : touch collection call d = some d')
    (hname : d.contains name = true) : d'.contains name = true := by
  cases call with
  | query c criteria options =>
      cases h
      exact hname
  | insert c document =>
      cases h
      exact hname
  | update c criteria patch =>
      obtain rfl := Option.some.inj h
      split
      · exact contains_overlay hname
      · exact hname
  | delete c criteria =>
      rw [touch] at h
      split at h
      · cases h
      · cases h
        exact hname

/-- As long as there is a document, it has the fields that it had. -/
theorem contains_of_fate {calls : List Call} (h : fate collection calls d = some d')
    (hname : d.contains name = true) : d'.contains name = true := by
  induction calls generalizing d with
  | nil =>
      cases h
      exact hname
  | cons call rest ih =>
      obtain ⟨between, htouch, hrest⟩ := Option.bind_eq_some_iff.mp h
      exact ih hrest (contains_of_touch htouch hname)

/-- The documents of a collection before and after an update, side by side. -/
theorem forall₂_update (s : Store) (collection : String) (criteria patch : Fields Value) :
    List.Forall₂ (fun d d' : Document => (d' = d ∨ d' = d.overlay patch) ∧
        ∀ name, d.contains name = true → d'.contains name = true)
      (s.documents collection)
      ((s.perform (.update collection criteria patch)).2.documents collection) := by
  show List.Forall₂ _ _ ((s.update collection criteria patch).2.documents collection)
  rw [documents_update, patched, List.forall₂_map_right_iff, List.forall₂_same]
  intro d _
  split
  · exact ⟨.inr rfl, fun name hname => contains_overlay hname⟩
  · exact ⟨.inl rfl, fun name hname => hname⟩

/-! ## All calls -/

theorem filterMap_fate (collection : String) (rows : List Document) (call : Call)
    (rest : List Call) :
    (rows.filterMap (touch collection call)).filterMap (fate collection rest) =
      rows.filterMap (fate collection (call :: rest)) := by
  rw [List.filterMap_filterMap]
  rfl

theorem documents_after (s : Store) (collection : String) (calls : List Call) :
    (s.after calls).documents collection =
      (s.history collection calls).filterMap fun p => fate collection p.2 p.1 := by
  have hmap : ∀ (rows : List Document) (calls : List Call),
      (rows.map (·, calls)).filterMap (fun p => fate collection p.2 p.1) =
        rows.filterMap (fate collection calls) := by
    intro rows calls
    rw [List.filterMap_map]
    rfl
  rw [history, List.filterMap_append, hmap]
  induction calls generalizing s with
  | nil =>
      have hkeep : fate collection [] = some := rfl
      show s.documents collection = _ ++ []
      rw [hkeep, List.filterMap_some, List.append_nil]
  | cons call rest ih =>
      have hrest := ih (s.perform call).2
      rw [documents_perform, List.filterMap_append, filterMap_fate] at hrest
      show ((s.perform call).2.after rest).documents collection = _
      rw [hrest, inserted, List.filterMap_append, hmap, List.append_assoc]

theorem length_after (s : Store) (collection : String) (calls : List Call) :
    ((s.after calls).documents collection).length + s.deletedCount collection calls =
      (s.documents collection).length + calls.countP (isInsertion collection) := by
  induction calls generalizing s with
  | nil => rfl
  | cons call rest ih =>
      have hcall := length_perform s call collection
      have hrest := ih (s.perform call).2
      rw [length_arrival] at hcall
      rw [after, deletedCount, List.countP_cons]
      omega

theorem contains_idField_of_inserted {calls : List Call} {p : Document × List Call}
    (h : p ∈ s.inserted collection calls) : p.1.contains s.idField = true := by
  induction calls generalizing s with
  | nil => cases h
  | cons call rest ih =>
      rcases List.mem_append.mp h with hcall | hrest
      · obtain ⟨d, hd, rfl⟩ := List.mem_map.mp hcall
        cases call with
        | insert c document =>
            rw [arrival] at hd
            split at hd
            · obtain rfl := List.mem_singleton.mp hd
              exact contains_identified s document
            · cases hd
        | _ => cases hd
      · have hfield := ih hrest
        rwa [idField_perform] at hfield

/-- What holds of a collection after some calls. -/
structure IsConserved (s : Store) (collection : String) (calls : List Call) : Prop where
  /-- No document is lost, and none is doubled. -/
  count : ((s.after calls).documents collection).length + s.deletedCount collection calls =
    (s.documents collection).length + calls.countP (isInsertion collection)
  /-- What is left of the documents that were ever there is in the order of
  their arrival. -/
  order : (s.after calls).documents collection =
    (s.history collection calls).filterMap fun p => fate collection p.2 p.1
  /-- Whatever is left of a document that was inserted has the id field. -/
  ids : ∀ p ∈ s.inserted collection calls, ∀ d, fate collection p.2 p.1 = some d →
    d.contains s.idField = true

/-- After any calls to any store, every collection is conserved. A further
query, even one that fails, leaves the store as it is; a further update leaves
every document in its place and with its fields; and a further call leaves the
collections that it does not name as they are. -/
theorem after_conserves (s : Store) (calls : List Call) :
    (∀ collection, s.IsConserved collection calls) ∧
      (∀ collection criteria options,
        ((s.after calls).perform (.query collection criteria options)).2 = s.after calls) ∧
      (∀ collection criteria patch,
        List.Forall₂ (fun d d' : Document => (d' = d ∨ d' = d.overlay patch) ∧
            ∀ name, d.contains name = true → d'.contains name = true)
          ((s.after calls).documents collection)
          (((s.after calls).perform (.update collection criteria patch)).2.documents
            collection)) ∧
      ∀ (call : Call) (collection : String), call.collection ≠ collection →
        ((s.after calls).perform call).2.documents collection =
          (s.after calls).documents collection := by
  refine ⟨fun collection => ?_, fun _ _ _ => rfl, forall₂_update (s.after calls), ?_⟩
  · refine ⟨length_after s collection calls, documents_after s collection calls, ?_⟩
    intro p hp d hd
    have hborn := contains_idField_of_inserted hp
    exact contains_of_fate hd hborn
  · intro call collection hne
    exact documents_perform_of_ne hne

end Conduit.Store
