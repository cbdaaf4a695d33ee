import Conduit.Proofs.Store.History
import Conduit.Proofs.Store.Sort
import Conduit.Proofs.Value.Equality

/-!
# What calls select

A query, an update and a deletion with the same criteria select the same
documents. The patch of an update may change the fields that the criteria read,
so that the same update selects other documents the second time; but these are
among those that have been written over before, and to write the same fields
over a document twice is to write them once.
-/

namespace Conduit

namespace Store

variable {s : Store} {collection other : String} {criteria patch : Fields Value}
  {rows : List Document} {d : Document}

/-- An update changes the documents that a query gives, and no others. -/
structure UpdatesOnly (s : Store) (collection : String) (criteria patch : Fields Value)
    (rows : List Document) : Prop where
  count : (s.update collection criteria patch).1 = rows.length
  documents : List.Forall₂
    (fun d d' : Document => (d ∈ rows → d' = d.overlay patch) ∧ (d ∉ rows → d' = d))
    (s.documents collection) ((s.update collection criteria patch).2.documents collection)
  elsewhere : ∀ other, other ≠ collection →
    (s.update collection criteria patch).2.documents other = s.documents other
  /-- The same update once more changes nothing. -/
  again : ((s.update collection criteria patch).2.update collection criteria patch).2 =
    (s.update collection criteria patch).2

/-- A deletion removes the documents that a query gives, and no others. -/
structure DeletesOnly (s : Store) (collection : String) (criteria : Fields Value)
    (rows : List Document) : Prop where
  count : (s.delete collection criteria).1 = rows.length
  inOrder : ((s.delete collection criteria).2.documents collection).Sublist
    (s.documents collection)
  others : (s.documents collection).Perm
    (rows ++ (s.delete collection criteria).2.documents collection)
  gone : ∀ d ∈ (s.delete collection criteria).2.documents collection, d ∉ rows
  elsewhere : ∀ other, other ≠ collection →
    (s.delete collection criteria).2.documents other = s.documents other
  query : (s.delete collection criteria).2.query collection criteria {} = .ok []
  again : ((s.delete collection criteria).2.delete collection criteria).1 = 0

theorem query_default (s : Store) (collection : String) (criteria : Fields Value) :
    s.query collection criteria {} = .ok (s.matching collection criteria) :=
  query_eq s collection criteria none none none none

theorem mem_matching :
    d ∈ s.matching collection criteria ↔ d ∈ s.documents collection ∧ isMatch criteria d = true :=
  List.mem_filter

theorem length_matching :
    (s.matching collection criteria).length = (s.documents collection).countP (isMatch criteria) :=
  List.countP_eq_length_filter.symm

/-! ## Updates -/

/-- A document that was not selected is not selected afterwards either, and one
that was has the patch over it already. -/
theorem patched_patched (criteria patch : Fields Value) (rows : List Document) :
    patched criteria patch (patched criteria patch rows) = patched criteria patch rows := by
  rw [patched, patched, List.map_map]
  refine List.map_congr_left fun d _ => ?_
  rw [Function.comp_apply]
  by_cases h : isMatch criteria d
  · rw [if_pos h, Fields.overlay_overlay, ite_self]
  · rw [if_neg h, if_neg h]

theorem update_update (s : Store) (collection : String) (criteria patch : Fields Value) :
    ((s.update collection criteria patch).2.update collection criteria patch).2 =
      (s.update collection criteria patch).2 := by
  cases h : s.collections.get? collection with
  | none => simp [update, h]
  | some rows =>
      simp [update, h, Fields.get?_set, Fields.set_set, patched_patched]

theorem update_count (s : Store) (collection : String) (criteria patch : Fields Value) :
    (s.update collection criteria patch).1 = (s.matching collection criteria).length := by
  rw [length_matching]
  cases h : s.collections.get? collection <;> simp [update, documents, h]

theorem updatesOnly (s : Store) (collection : String) (criteria patch : Fields Value) :
    s.UpdatesOnly collection criteria patch (s.matching collection criteria) where
  count := update_count s collection criteria patch
  documents := by
    rw [documents_update, patched, List.forall₂_map_right_iff, List.forall₂_same]
    intro d hd
    refine ⟨fun h => if_pos (mem_matching.mp h).2, fun h => if_neg fun hmatch => ?_⟩
    exact h (mem_matching.mpr ⟨hd, hmatch⟩)
  elsewhere other hother := by
    have hne : (Call.update collection criteria patch).collection ≠ other := hother.symm
    exact documents_perform_of_ne hne
  again := update_update s collection criteria patch

/-! ## Deletions -/

theorem matching_delete (s : Store) (collection : String) (criteria : Fields Value) :
    (s.delete collection criteria).2.matching collection criteria = [] := by
  rw [matching, documents_delete, List.filter_filter]
  simp

theorem delete_count (s : Store) (collection : String) (criteria : Fields Value) :
    (s.delete collection criteria).1 = (s.matching collection criteria).length :=
  length_matching.symm

theorem deletesOnly (s : Store) (collection : String) (criteria : Fields Value) :
    s.DeletesOnly collection criteria (s.matching collection criteria) where
  count := delete_count s collection criteria
  inOrder := by
    rw [documents_delete]
    exact List.filter_sublist
  others := by
    rw [documents_delete]
    exact (List.filter_append_perm (isMatch criteria) _).symm
  gone d hd hrows := by
    rw [documents_delete, List.mem_filter, (mem_matching.mp hrows).2] at hd
    cases hd.2
  elsewhere other hother := by
    have hne : (Call.delete collection criteria).collection ≠ other := hother.symm
    exact documents_perform_of_ne hne
  query := by rw [query_default, matching_delete]
  again := by
    rw [delete_count, matching_delete]
    rfl

/-! ## Insertions -/

theorem get?_identified {name : String} {v : Value} (s : Store) (h : d.get? name = some v) :
    (s.identified d).1.get? name = some v := by
  unfold identified
  split
  · exact h
  · next hid =>
      have hne : s.idField ≠ name := by
        rintro rfl
        rw [Fields.contains, h] at hid
        exact hid rfl
      rw [Fields.get?_set, if_neg hne, h]

theorem isMatch_identified (s : Store) (hnan : (Value.obj d).Throughout Value.IsNotNaN)
    (hnames : (Value.obj d).Throughout Value.NamesOnce) : isMatch d (s.identified d).1 = true := by
  refine List.all_eq_true.mpr fun p hp => ?_
  rw [get?_identified s (Fields.get?_of_mem hnames.1 hp), Option.any_some]
  exact Value.equal_self p.2 (Value.throughoutFields_mem hnan.2 hp)
    (Value.throughoutFields_mem hnames.2 hp)

theorem matching_insert (h : isMatch criteria (s.insert collection d).1 = true) :
    (s.insert collection d).2.matching collection criteria =
      s.matching collection criteria ++ [(s.insert collection d).1] := by
  rw [matching, documents_insert, List.filter_append]
  exact congrArg _ (List.filter_cons_of_pos h)

/-! ## All calls -/

/-- A query without options succeeds; an update and a deletion select just what
it gives. A document without NaN is found by its own fields once it is
inserted, behind all others that have them. -/
theorem calls_select (s : Store) (collection : String) :
    (∀ criteria, ∃ rows, s.query collection criteria {} = .ok rows ∧
        (∀ patch, s.UpdatesOnly collection criteria patch rows) ∧
        s.DeletesOnly collection criteria rows) ∧
      ∀ d : Document, (Value.obj d).Throughout Value.IsNotNaN →
        (Value.obj d).Throughout Value.NamesOnce →
        ∃ earlier, (s.insert collection d).2.query collection d {} =
          .ok (earlier ++ [(s.insert collection d).1]) := by
  constructor
  · intro criteria
    exact ⟨_, query_default s collection criteria, updatesOnly s collection criteria,
      deletesOnly s collection criteria⟩
  · intro d hnan hnames
    refine ⟨s.matching collection d, ?_⟩
    rw [query_default, matching_insert (isMatch_identified s hnan hnames)]

/-- Two books, of which one is lent. -/
def shelf : Store :=
  { collections := [("books", [[("id", .int 1), ("lent", .bool false)],
      [("lent", .bool true), ("id", .int 2)]])]
    ids := fun n => .int n }

theorem calls_select_shelf :
    (∃ rows, shelf.query "books" [("lent", .bool false)] {} = .ok rows ∧ rows.length = 1 ∧
        shelf.UpdatesOnly "books" [("lent", .bool false)] [("lent", .bool true)] rows ∧
        shelf.DeletesOnly "books" [("lent", .bool false)] rows) ∧
      (Value.obj [("lent", .bool true)]).Throughout Value.IsNotNaN ∧
      (Value.obj [("lent", .bool true)]).Throughout Value.NamesOnce ∧
      ∃ earlier, (shelf.insert "books" [("lent", .bool true)]).2.query "books"
        [("lent", .bool true)] {} =
          .ok (earlier ++ [(shelf.insert "books" [("lent", .bool true)]).1]) := by
  obtain ⟨hcalls, hinsert⟩ := calls_select shelf "books"
  obtain ⟨rows, hquery, hupdate, hdelete⟩ := hcalls [("lent", .bool false)]
  have hrows : rows.length = 1 := hdelete.count.symm.trans (by decide +kernel)
  have hnan : (Value.obj [("lent", .bool true)]).Throughout Value.IsNotNaN := by
    simp [Value.Throughout, Value.ThroughoutFields, Value.IsNotNaN]
  have hnames : (Value.obj [("lent", .bool true)]).Throughout Value.NamesOnce := by
    simp [Value.Throughout, Value.ThroughoutFields, Value.NamesOnce, Fields.names]
  exact ⟨⟨rows, hquery, hrows, hupdate _, hdelete⟩, hnan, hnames, hinsert _ hnan hnames⟩

end Store

end Conduit
