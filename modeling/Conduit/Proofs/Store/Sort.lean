import Conduit.Proofs.Slice
import Conduit.Proofs.Value.Order
import Conduit.Store
import Mathlib.Data.List.Sort

/-!
# Sorted queries

A query sorts the documents that match by several fields, one sort for each
field and the last field first. Each of these sorts is stable, so that the
documents end up in the order of the first field, those that are equal there in
the order of the second, and so on, and documents that are equal in all of them
in the order in which they are stored. A document without a value of a field
goes behind all that have one, whether the field is ascending or descending.

A sort breaks off as soon as it meets two values that have no order. It cannot
miss them: values that all have an order with one of them have one with each
other, and each value is compared with some other one.
-/

namespace Conduit.Store

/-! ## Orders -/

/-- An ordering as the order of a field turns it. -/
def turned : SortOrder → Ordering → Ordering
  | .asc, o => o
  | .desc, o => o.swap

theorem turned_swap (order : SortOrder) (o : Ordering) :
    turned order o.swap = (turned order o).swap := by
  cases order <;> rfl

/-- How two documents stand to each other by one field. -/
def fieldOrder (key : String) (order : SortOrder) (d e : Document) : Ordering :=
  match sortValue? key d, sortValue? key e with
  | some v, some w =>
    match v.compare w with
    | .ok o => turned order o
    | .error _ => .eq
  | some _, none => .lt
  | none, some _ => .gt
  | none, none => .eq

/-- How two documents stand to each other by several fields, the first of them
counting most. -/
def rowOrder : List (String × SortOrder) → Document → Document → Ordering
  | [], _, _ => .eq
  | (key, order) :: rest, d, e => (fieldOrder key order d e).then (rowOrder rest d e)

/-- A document at its position goes before another one: by the fields, else as
they are stored. -/
def Precedes (sort : List (String × SortOrder)) (p q : Document × Nat) : Prop :=
  rowOrder sort p.1 q.1 = .lt ∨ rowOrder sort p.1 q.1 = .eq ∧ p.2 < q.2

/-- The documents, each with its position, put into the order of the fields. -/
structure IsSorting (sort : List (String × SortOrder)) (rows : List Document)
    (sorted : List (Document × Nat)) : Prop where
  perm : sorted.Perm rows.zipIdx
  ordered : sorted.Pairwise (Precedes sort)

/-- Two of the documents have values of a field that have no order. -/
def Clashes (key : String) (rows : List Document) : Prop :=
  ∃ i j : Nat, i < j ∧ ∃ v w, (rows[i]?).bind (sortValue? key) = some v ∧
    (rows[j]?).bind (sortValue? key) = some w ∧ ¬v.HasOrder w

variable {key : String} {order : SortOrder} {sort : List (String × SortOrder)}
  {rows rows' : List Document} {l : List (Document × Nat)} {d e : Document} {u v w : Value}

/-! ## There is one sorting at most -/

theorem fieldOrder_swap (key : String) (order : SortOrder) (d e : Document) :
    fieldOrder key order e d = (fieldOrder key order d e).swap := by
  unfold fieldOrder
  cases sortValue? key d with
  | none => cases sortValue? key e <;> rfl
  | some v =>
      cases sortValue? key e with
      | none => rfl
      | some w =>
          dsimp only
          cases hvw : v.compare w with
          | ok o =>
              rw [Value.compare_swap hvw]
              exact turned_swap order o
          | error f =>
              cases hwv : w.compare v with
              | ok o =>
                  rw [Value.compare_swap hwv] at hvw
                  cases hvw
              | error f' => rfl

theorem rowOrder_swap (sort : List (String × SortOrder)) (d e : Document) :
    rowOrder sort e d = (rowOrder sort d e).swap := by
  induction sort with
  | nil => rfl
  | cons field rest ih =>
      obtain ⟨key, order⟩ := field
      rw [rowOrder, rowOrder, fieldOrder_swap, ih, Ordering.swap_then]

theorem Precedes.asymm {p q : Document × Nat} (h : Precedes sort p q) : ¬Precedes sort q p := by
  intro h'
  unfold Precedes at h h'
  rw [rowOrder_swap sort p.1 q.1] at h'
  rcases h with h | ⟨h, hlt⟩ <;> rw [h] at h'
  · rcases h' with h' | ⟨h', -⟩ <;> cases h'
  · rcases h' with h' | ⟨-, hgt⟩
    · cases h'
    · exact Nat.lt_asymm hlt hgt

theorem IsSorting.unique {sorted other : List (Document × Nat)} (h : IsSorting sort rows sorted)
    (h' : IsSorting sort rows other) : other = sorted :=
  (h'.perm.trans h.perm.symm).eq_of_pairwise (fun _ _ _ _ hpq hqp => absurd hqp hpq.asymm)
    h'.ordered h.ordered

/-! ## Values without an order -/

theorem not_clashes_iff :
    ¬Clashes key rows ↔ (rows.filterMap (sortValue? key)).Pairwise Value.HasOrder := by
  rw [List.pairwise_filterMap, List.pairwise_iff_getElem]
  constructor
  · intro h i j hi hj hij v hv w hw
    refine Classical.byContradiction fun hno => h ⟨i, j, hij, v, w, ?_, ?_, hno⟩
    · rw [List.getElem?_eq_getElem hi]
      exact hv
    · rw [List.getElem?_eq_getElem hj]
      exact hw
  · rintro h ⟨i, j, hij, v, w, hv, hw, hno⟩
    obtain ⟨d, hd, hv⟩ := Option.bind_eq_some_iff.mp hv
    obtain ⟨e, he, hw⟩ := Option.bind_eq_some_iff.mp hw
    obtain ⟨hi, rfl⟩ := List.getElem?_eq_some_iff.mp hd
    obtain ⟨hj, rfl⟩ := List.getElem?_eq_some_iff.mp he
    exact hno (h i j hi hj hij v hv w hw)

/-- The order in which documents stand has no part in it. -/
theorem clashes_perm (h : rows.Perm rows') : Clashes key rows ↔ Clashes key rows' := by
  rw [← not_iff_not, not_clashes_iff, not_clashes_iff]
  exact (h.filterMap _).pairwise_iff Value.HasOrder.symm

/-- To compare all values with the first one is enough. -/
theorem sortFault?_eq_none_iff {values : List Value} :
    sortFault? values = none ↔ values.Pairwise Value.HasOrder := by
  cases values with
  | nil => simp [sortFault?]
  | cons first rest =>
      have hfirst : sortFault? (first :: rest) = none ↔ ∀ v ∈ rest, v.HasOrder first := by
        rw [sortFault?, List.findSome?_eq_none_iff]
        refine forall₂_congr fun v _ => ?_
        unfold Value.HasOrder
        cases v.compare first <;> simp
      rw [hfirst, List.pairwise_cons]
      constructor
      · intro h
        refine ⟨fun v hv => (h v hv).symm, ?_⟩
        exact List.pairwise_iff_forall_sublist.mpr fun hvw =>
          (h _ (hvw.subset (by simp))).trans (h _ (hvw.subset (by simp))).symm
      · exact fun h v hv => (h.1 v hv).symm

theorem sortFault?_reverse {values : List Value} :
    sortFault? values.reverse = none ↔ sortFault? values = none := by
  rw [sortFault?_eq_none_iff, sortFault?_eq_none_iff, List.pairwise_reverse]
  exact ⟨fun h => h.imp Value.HasOrder.symm, fun h => h.imp Value.HasOrder.symm⟩

theorem map_fst_present (key : String) (rows : List Document) :
    (present key rows).map Prod.fst = rows.filterMap (sortValue? key) := by
  rw [present, List.map_filterMap]
  refine List.filterMap_congr fun d _ => ?_
  cases sortValue? key d <;> rfl

/-! ## One field -/

/-- The same value, or values that have an order. -/
def Agrees (v w : Value) : Prop := v = w ∨ v.HasOrder w

theorem inOrder_eq {o : Ordering} (h : v.compare w = .ok o) :
    inOrder order v w = (turned order o).isLE := by
  cases order with
  | asc =>
      rw [inOrder, h]
      cases o <;> rfl
  | desc =>
      rw [inOrder, Value.compare_swap h]
      cases o <;> rfl

theorem inOrder_self (order : SortOrder) (v : Value) : inOrder order v v = true := by
  have hascending : inOrder order v v = inOrder .asc v v := by cases order <;> rfl
  rw [hascending]
  unfold inOrder
  dsimp only
  cases h : v.compare v with
  | error f => rfl
  | ok o =>
      have hswap := Value.compare_swap h
      rw [h] at hswap
      cases o with
      | gt => cases hswap
      | _ => rfl

theorem inOrder_total (h : Agrees v w) : (inOrder order v w || inOrder order w v) = true := by
  rcases h with rfl | ⟨o, ho⟩
  · rw [inOrder_self]
    rfl
  · rw [inOrder_eq ho, inOrder_eq (Value.compare_swap ho)]
    cases order <;> cases o <;> rfl

theorem inOrder_trans (huv : Agrees u v) (hvw : Agrees v w) (h : inOrder order u v = true)
    (h' : inOrder order v w = true) : inOrder order u w = true := by
  rcases huv with rfl | ⟨o, ho⟩
  · exact h'
  rcases hvw with rfl | ⟨o', ho'⟩
  · exact h
  rw [inOrder_eq ho] at h
  rw [inOrder_eq ho'] at h'
  cases order with
  | asc =>
      obtain ⟨o'', ho'', hle⟩ := Value.compare_trans ho ho' h h'
      rw [inOrder_eq ho'']
      exact hle
  | desc =>
      -- Descending values are ascending ones read backwards.
      have hvu := Value.compare_swap ho
      have hwv := Value.compare_swap ho'
      obtain ⟨o'', ho'', hle⟩ := Value.compare_trans hwv hvu h' h
      rw [inOrder_eq (Value.compare_swap ho'')]
      show o''.swap.swap.isLE = true
      rwa [Ordering.swap_swap]

/-- A stable sort keeps what holds of elements in the order in which they were,
as far as they are equal. -/
theorem pairwise_mergeSort {α : Type} {le : α → α → Bool} {R : α → α → Prop} {l : List α}
    (trans : ∀ a b c, le a b = true → le b c = true → le a c = true)
    (total : ∀ a b, (le a b || le b a) = true) (h : l.Pairwise R) :
    (l.mergeSort le).Pairwise fun a b => le a b = true ∧ (le b a = true → R a b) := by
  have hsorted := List.pairwise_mergeSort (List.zipIdxLE_trans trans) (List.zipIdxLE_total total)
    l.zipIdx
  have hdistinct : ((l.zipIdx.mergeSort (List.zipIdxLE le)).map Prod.snd).Nodup := by
    rw [((List.mergeSort_perm _ _).map _).nodup_iff, List.zipIdx_map_snd]
    exact List.nodup_range'
  rw [← List.mergeSort_zipIdx, List.pairwise_map]
  refine (hsorted.and (List.pairwise_map.mp hdistinct)).imp_of_mem ?_
  rintro ⟨a, i⟩ ⟨b, j⟩ ha hb ⟨hle, hne⟩
  rw [List.mem_mergeSort, List.mem_zipIdx_iff_getElem?] at ha hb
  dsimp only at ha hb hne ⊢
  have hab : le a b = true := by
    by_contra hno
    simp [List.zipIdxLE, hno] at hle
  refine ⟨hab, fun hba => ?_⟩
  have hij : i ≤ j := by simpa [List.zipIdxLE, hab, hba] using hle
  obtain ⟨hi, rfl⟩ := List.getElem?_eq_some_iff.mp ha
  obtain ⟨hj, rfl⟩ := List.getElem?_eq_some_iff.mp hb
  exact List.pairwise_iff_getElem.mp h i j hi hj (Nat.lt_of_le_of_ne hij hne)

/-- The same for a comparison that is an order among the elements of the list. -/
theorem pairwise_mergeSort_of_mem {α : Type} (le : α → α → Bool) {R : α → α → Prop} {l : List α}
    (trans : ∀ a ∈ l, ∀ b ∈ l, ∀ c ∈ l, le a b = true → le b c = true → le a c = true)
    (total : ∀ a ∈ l, ∀ b ∈ l, (le a b || le b a) = true) (h : l.Pairwise R) :
    (l.mergeSort le).Pairwise fun a b => le a b = true ∧ (le b a = true → R a b) := by
  have hattach : l.mergeSort le =
      (l.attach.mergeSort fun a b => le a.1 b.1).map Subtype.val := by
    rw [List.map_mergeSort (s := le) fun _ _ _ _ => rfl, List.attach_map_subtype_val]
  rw [hattach, List.pairwise_map]
  refine pairwise_mergeSort (R := fun a b : { a // a ∈ l } => R a.1 b.1) ?_ ?_ ?_
  · exact fun a b c => trans a.1 a.2 b.1 b.2 c.1 c.2
  · exact fun a b => total a.1 a.2 b.1 b.2
  · exact List.pairwise_map.mp (by rwa [List.attach_map_subtype_val])

/-- Documents at their positions that have a value of a field, with it. -/
def valued (key : String) (l : List (Document × Nat)) : List (Value × Document × Nat) :=
  l.filterMap fun p => (sortValue? key p.1).map fun v => (v, p)

theorem mem_valued {l : List (Document × Nat)} {t : Value × Document × Nat}
    (h : t ∈ valued key l) : sortValue? key t.2.1 = some t.1 := by
  obtain ⟨p, -, hp⟩ := List.mem_filterMap.mp h
  obtain ⟨v, hv, rfl⟩ := Option.map_eq_some_iff.mp hp
  exact hv

theorem map_fst_valued (key : String) (l : List (Document × Nat)) :
    (valued key l).map Prod.fst = (l.map Prod.fst).filterMap (sortValue? key) := by
  rw [valued, List.map_filterMap, List.filterMap_map]
  refine List.filterMap_congr fun p _ => ?_
  rw [Option.map_map]
  exact Option.map_id_apply

theorem map_snd_valued (key : String) (l : List (Document × Nat)) :
    (valued key l).map Prod.snd = l.filter fun p => (sortValue? key p.1).isSome := by
  rw [valued, List.map_filterMap, ← List.filterMap_eq_filter]
  refine List.filterMap_congr fun p _ => ?_
  cases h : sortValue? key p.1 <;> simp [Option.guard, h]

theorem present_map_fst (key : String) (l : List (Document × Nat)) :
    present key (l.map Prod.fst) = (valued key l).map fun t => (t.1, t.2.1) := by
  rw [present, valued, List.filterMap_map, List.map_filterMap]
  refine List.filterMap_congr fun p _ => ?_
  rw [Option.map_map]
  rfl

/-- What a sort by one field makes of documents at their positions. -/
def sortedBy (key : String) (order : SortOrder) (l : List (Document × Nat)) :
    List (Document × Nat) :=
  ((valued key l).mergeSort fun t t' => inOrder order t.1 t'.1).map Prod.snd ++
    l.filter fun p => (sortValue? key p.1).isNone

theorem sortedBy_perm (key : String) (order : SortOrder) (l : List (Document × Nat)) :
    (sortedBy key order l).Perm l := by
  have hvalued : (((valued key l).mergeSort fun t t' => inOrder order t.1 t'.1).map Prod.snd).Perm
      (l.filter fun p => (sortValue? key p.1).isSome) := by
    rw [← map_snd_valued]
    exact (List.mergeSort_perm _ _).map _
  refine (hvalued.append_right _).trans ?_
  have hnone : (fun p : Document × Nat => (sortValue? key p.1).isNone) =
      fun p => !(sortValue? key p.1).isSome := by
    funext p
    exact (Option.not_isSome _).symm
  rw [hnone]
  exact List.filter_append_perm _ l

/-- The values of a field, in the order in which a sort meets them. -/
def sortValues (key : String) (order : SortOrder) (rows : List Document) : List Value :=
  match order with
  | .asc => (present key rows).map Prod.fst
  | .desc => ((present key rows).map Prod.fst).reverse

theorem sortFault?_sortValues (key : String) (order : SortOrder) (rows : List Document) :
    sortFault? (sortValues key order rows) = none ↔ ¬Clashes key rows := by
  rw [not_clashes_iff, ← sortFault?_eq_none_iff]
  cases order with
  | asc => rw [sortValues, map_fst_present]
  | desc => rw [sortValues, map_fst_present, sortFault?_reverse]

theorem sortBy_eq (key : String) (order : SortOrder) (rows : List Document) :
    sortBy key order rows = match sortFault? (sortValues key order rows) with
      | some e => .error e
      | none => .ok (((present key rows).mergeSort fun p q => inOrder order p.1 q.1).map Prod.snd ++
          rows.filter fun d => (sortValue? key d).isNone) := by
  cases order <;> rfl

theorem sortBy_error_iff (order : SortOrder) :
    (∃ e, sortBy key order rows = .error e) ↔ Clashes key rows := by
  rw [← not_iff_not, ← sortFault?_sortValues key order, sortBy_eq]
  cases sortFault? (sortValues key order rows) <;> simp

/-- Where no values clash, a sort by one field moves the documents with their
positions. -/
theorem sortBy_map_fst (h : ¬Clashes key (l.map Prod.fst)) :
    sortBy key order (l.map Prod.fst) = .ok ((sortedBy key order l).map Prod.fst) := by
  have hsorted : ((valued key l).map fun t => (t.1, t.2.1)).mergeSort
      (fun p q => inOrder order p.1 q.1) =
        ((valued key l).mergeSort fun t t' => inOrder order t.1 t'.1).map
          fun t => (t.1, t.2.1) := by
    rw [List.map_mergeSort]
    exact fun _ _ _ _ => rfl
  rw [sortBy_eq, (sortFault?_sortValues key order _).mpr h, present_map_fst, hsorted, sortedBy,
    List.map_append, List.map_map, List.map_map, List.filter_map]
  rfl

/-- A sort by one field puts documents into the order of the field, and leaves
those that are equal there in the order in which they were. -/
theorem sortedBy_pairwise {R : Document × Nat → Document × Nat → Prop}
    (h : ¬Clashes key (l.map Prod.fst)) (hR : l.Pairwise R) :
    (sortedBy key order l).Pairwise fun p q =>
      fieldOrder key order p.1 q.1 = .lt ∨ fieldOrder key order p.1 q.1 = .eq ∧ R p q := by
  have hnone : ∀ {p}, p ∈ l.filter (fun p => (sortValue? key p.1).isNone) →
      sortValue? key p.1 = none := by
    intro p hp
    exact Option.isNone_iff_eq_none.mp (List.mem_filter.mp hp).2
  refine List.pairwise_append.mpr ⟨List.pairwise_map.mpr ?_, ?_, ?_⟩
  · have horder : (valued key l).Pairwise fun t t' => t.1.HasOrder t'.1 := by
      rw [not_clashes_iff, ← map_fst_valued] at h
      exact List.pairwise_map.mp h
    have hagrees : ∀ t ∈ valued key l, ∀ t' ∈ valued key l, Agrees t.1 t'.1 :=
      List.Pairwise.forall_of_forall_of_flip (fun _ _ => .inl rfl) (horder.imp .inr)
        (horder.imp fun ho => .inr ho.symm)
    have hfilter : (valued key l).Pairwise fun t t' => R t.2 t'.2 := by
      refine List.pairwise_map.mp ?_
      rw [map_snd_valued]
      exact hR.filter _
    have hsorted := pairwise_mergeSort_of_mem (fun t t' => inOrder order t.1 t'.1)
      (fun t ht t' ht' t'' ht'' => inOrder_trans (hagrees t ht t' ht') (hagrees t' ht' t'' ht''))
      (fun t ht t' ht' => inOrder_total (hagrees t ht t' ht')) hfilter
    have horder' := ((List.mergeSort_perm (valued key l)
      fun t t' => inOrder order t.1 t'.1).pairwise_iff Value.HasOrder.symm).mpr horder
    refine (hsorted.and horder').imp_of_mem ?_
    rintro t t' ht ht' ⟨⟨hle, hties⟩, o, ho⟩
    have hfield : fieldOrder key order t.2.1 t'.2.1 = turned order o := by
      rw [fieldOrder, mem_valued (List.mem_mergeSort.mp ht), mem_valued (List.mem_mergeSort.mp ht')]
      dsimp only
      rw [ho]
    rw [inOrder_eq ho] at hle
    rw [inOrder_eq (Value.compare_swap ho), turned_swap] at hties
    rw [hfield]
    cases hturned : turned order o with
    | lt => exact .inl rfl
    | gt =>
        rw [hturned] at hle
        cases hle
    | eq =>
        rw [hturned] at hties
        exact .inr ⟨rfl, hties rfl⟩
  · -- Documents without a value are equal, and stay in their order.
    refine (hR.filter _).imp_of_mem fun {p q} hp hq hpq => .inr ⟨?_, hpq⟩
    rw [fieldOrder, hnone hp, hnone hq]
  · intro p hp q hq
    obtain ⟨t, ht, rfl⟩ := List.mem_map.mp hp
    left
    rw [fieldOrder, mem_valued (List.mem_mergeSort.mp ht), hnone hq]

/-! ## Several fields -/

theorem IsSorting.map_fst_perm {sorted : List (Document × Nat)} (h : IsSorting sort rows sorted) :
    (sorted.map Prod.fst).Perm rows := by
  have hperm := h.perm.map Prod.fst
  rwa [List.zipIdx_map_fst] at hperm

/-- The first field is sorted by last. -/
theorem Precedes.of_field {field : String × SortOrder} {p q : Document × Nat}
    (h : fieldOrder field.1 field.2 p.1 q.1 = .lt ∨
      fieldOrder field.1 field.2 p.1 q.1 = .eq ∧ Precedes sort p q) :
    Precedes (field :: sort) p q := by
  rcases h with h | ⟨h, hlt | heq⟩
  · left
    rw [rowOrder, h]
    rfl
  · left
    rw [rowOrder, h]
    exact hlt
  · right
    rw [rowOrder, h]
    exact heq

theorem sortAll_eq_ok (h : ∀ field ∈ sort, ¬Clashes field.1 rows) :
    ∃ sorted, IsSorting sort rows sorted ∧ sortAll sort rows = .ok (sorted.map Prod.fst) := by
  induction sort with
  | nil =>
      have hordered : rows.zipIdx.Pairwise (Precedes []) := by
        have hpositions : (rows.zipIdx.map Prod.snd).Pairwise (· < ·) := by
          rw [List.zipIdx_map_snd]
          exact List.pairwise_lt_range'
        exact (List.pairwise_map.mp hpositions).imp fun hlt => .inr ⟨rfl, hlt⟩
      refine ⟨rows.zipIdx, ⟨.refl _, hordered⟩, ?_⟩
      rw [List.zipIdx_map_fst]
      rfl
  | cons field rest ih =>
      obtain ⟨key, order⟩ := field
      obtain ⟨hfield, hrest⟩ := List.forall_mem_cons.mp h
      obtain ⟨sorted, hsorted, heq⟩ := ih hrest
      have hclashes : ¬Clashes key (sorted.map Prod.fst) :=
        mt (clashes_perm hsorted.map_fst_perm).mp hfield
      refine ⟨sortedBy key order sorted, ⟨?_, ?_⟩, ?_⟩
      · exact (sortedBy_perm key order sorted).trans hsorted.perm
      · exact (sortedBy_pairwise hclashes hsorted.ordered).imp Precedes.of_field
      · rw [sortAll, heq]
        exact sortBy_map_fst hclashes

theorem exists_sortAll_error {field : String × SortOrder} (hfield : field ∈ sort)
    (hclash : Clashes field.1 rows) : ∃ f, sortAll sort rows = .error f := by
  induction sort generalizing field with
  | nil => cases hfield
  | cons first rest ih =>
      obtain ⟨key, order⟩ := first
      by_cases hrest : ∃ f, sortAll rest rows = .error f
      · obtain ⟨f, hf⟩ := hrest
        refine ⟨f, ?_⟩
        rw [sortAll, hf]
        rfl
      · -- The documents are sorted by the other fields, so it is the first one that clashes.
        obtain ⟨sorted, hsorted, heq⟩ := sortAll_eq_ok fun field' hfield' hclash' =>
          hrest (ih hfield' hclash')
        rcases List.mem_cons.mp hfield with rfl | hmem
        · obtain ⟨f, hf⟩ := (sortBy_error_iff order).mpr
            ((clashes_perm hsorted.map_fst_perm).mpr hclash)
          refine ⟨f, ?_⟩
          rw [sortAll, heq]
          exact hf
        · exact absurd (ih hmem hclash) hrest

theorem sortAll_error_iff :
    (∃ f, sortAll sort rows = .error f) ↔ ∃ field ∈ sort, Clashes field.1 rows := by
  constructor
  · rintro ⟨f, hf⟩
    by_contra hno
    obtain ⟨sorted, -, heq⟩ := sortAll_eq_ok fun field hfield hclash => hno ⟨field, hfield, hclash⟩
    rw [heq] at hf
    cases hf
  · rintro ⟨field, hfield, hclash⟩
    exact exists_sortAll_error hfield hclash

/-! ## Queries -/

/-- The rows from one position on, and not more than a number of them. -/
def window (skip limit : Option Nat) (rows : List Document) : List Document :=
  match limit with
  | some n => (rows.drop (skip.getD 0)).take n
  | none => rows.drop (skip.getD 0)

/-- The rows with all their fields, or with some of them. -/
def view (select : Option (List String)) (rows : List Document) : List Document :=
  match select with
  | some fields => rows.map (project fields)
  | none => rows

theorem limitRows_skipRows (skip limit : Option Nat) (rows : List Document) :
    limitRows (limit.map Int.ofNat) (skipRows (skip.map Int.ofNat) rows) =
      window skip limit rows := by
  have hskip : skipRows (skip.map Int.ofNat) rows = rows.drop (skip.getD 0) := by
    refine (Slice.apply_of_nat skip none rows).trans ?_
    exact List.take_of_length_le (by simp)
  rw [hskip]
  refine (Slice.apply_of_nat none limit _).trans ?_
  cases limit with
  | none => exact List.take_of_length_le (Nat.le_refl _)
  | some n => rfl

/-- The options of a query that counts rows from the beginning. -/
def optionsOf (sort : Option (List (String × SortOrder))) (skip limit : Option Nat)
    (select : Option (List String)) : QueryOptions :=
  { select, limit := limit.map Int.ofNat, skip := skip.map Int.ofNat, sort }

theorem query_eq (s : Store) (collection : String) (criteria : Fields Value)
    (sort : Option (List (String × SortOrder))) (skip limit : Option Nat)
    (select : Option (List String)) :
    s.query collection criteria (optionsOf sort skip limit select) =
      (sortAll (sort.getD []) (s.matching collection criteria)).map fun rows =>
        view select (window skip limit rows) := by
  unfold query
  rw [optionsOf]
  dsimp only
  cases sortAll (sort.getD []) (s.matching collection criteria) with
  | error f => rfl
  | ok rows =>
      show Except.ok _ = Except.ok _
      rw [limitRows_skipRows]
      rfl

/-- A query fails exactly if among the documents that match there are two with
values of a field to sort by that have no order. Otherwise there is one way to
put these documents into the order of the fields, and the query gives the
wanted part of them in this order. -/
theorem query_sorted (s : Store) (collection : String) (criteria : Fields Value)
    (sort : Option (List (String × SortOrder))) (skip limit : Option Nat)
    (select : Option (List String)) :
    ((∃ e, s.query collection criteria (optionsOf sort skip limit select) = .error e) ↔
        ∃ field ∈ sort.getD [], Clashes field.1 (s.matching collection criteria)) ∧
      ((∀ field ∈ sort.getD [], ¬Clashes field.1 (s.matching collection criteria)) →
        ∃ sorted, IsSorting (sort.getD []) (s.matching collection criteria) sorted ∧
          (∀ other, IsSorting (sort.getD []) (s.matching collection criteria) other →
            other = sorted) ∧
          s.query collection criteria (optionsOf sort skip limit select) =
            .ok (view select (window skip limit (sorted.map Prod.fst)))) := by
  have hquery := query_eq s collection criteria sort skip limit select
  refine ⟨?_, fun h => ?_⟩
  · rw [← sortAll_error_iff, hquery]
    cases sortAll (sort.getD []) (s.matching collection criteria) <;> simp [Except.map]
  · obtain ⟨sorted, hsorted, heq⟩ := sortAll_eq_ok h
    refine ⟨sorted, hsorted, fun other hother => hsorted.unique hother, ?_⟩
    rw [hquery, heq]
    rfl

/-- Three ships, of which one has no rank. -/
def fleet : Store :=
  { collections := [("ships", [[("id", .int 1), ("rank", .null)],
      [("id", .int 2), ("rank", .int 5)], [("rank", .int 5), ("id", .int 3)]])]
    ids := fun n => .int n }

def byRank : List (String × SortOrder) := [("rank", .desc), ("id", .desc)]

theorem query_sorted_fleet :
    (∀ field ∈ byRank, ¬Clashes field.1 (fleet.matching "ships" [])) ∧
      IsSorting byRank (fleet.matching "ships" []) (fleet.matching "ships" []).zipIdx.reverse ∧
      fleet.query "ships" [] (optionsOf byRank (some 1) none (some ["id"])) =
        .ok [[("id", .int 2)], [("id", .int 1)]] := by
  have hranks : ¬Clashes "rank" (fleet.matching "ships" []) := by
    have hequal : (Value.int 5).HasOrder (.int 5) := ⟨_, rfl⟩
    exact not_clashes_iff.mpr (List.pairwise_pair.mpr hequal)
  have hids : ¬Clashes "id" (fleet.matching "ships" []) := by
    have hints : [Value.int 1, .int 2, .int 3].Pairwise Value.HasOrder := by
      refine .cons ?_ (List.pairwise_pair.mpr ⟨_, rfl⟩)
      exact List.forall_mem_cons.mpr ⟨⟨_, rfl⟩, List.forall_mem_singleton.mpr ⟨_, rfl⟩⟩
    exact not_clashes_iff.mpr hints
  have hnone : ∀ field ∈ byRank, ¬Clashes field.1 (fleet.matching "ships" []) := by
    simp [byRank, hranks, hids]
  have hsorting : IsSorting byRank (fleet.matching "ships" [])
      (fleet.matching "ships" []).zipIdx.reverse := by
    refine ⟨List.reverse_perm _, List.pairwise_reverse.mpr ?_⟩
    refine .cons ?_ (List.pairwise_pair.mpr (.inl rfl))
    exact List.forall_mem_cons.mpr ⟨.inl rfl, List.forall_mem_singleton.mpr (.inl rfl)⟩
  obtain ⟨sorted, -, hunique, hquery⟩ :=
    (query_sorted fleet "ships" [] byRank (some 1) none (some ["id"])).2 hnone
  rw [← hunique _ hsorting] at hquery
  exact ⟨hnone, hsorting, hquery⟩

end Conduit.Store
