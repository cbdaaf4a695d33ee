import Conduit.Fields
import Mathlib.Data.List.Induction

/-!
# Fields that are read and written

The value of a name is that of its first field, and a name that is written keeps
the place at which it was given first. To write fields over others is to write
them one after another. So it does not matter whether three lots of fields are
written over each other from the left or from the right, as long as the middle
one gives each name once.
-/

namespace Conduit

namespace Fields

variable {α : Type} {name other : String} {v w : α} {fs gs top : Fields α}

/-! ## Reading -/

theorem contains_iff_mem_names : contains name fs = true ↔ name ∈ names fs := by
  unfold contains
  induction fs with
  | nil => simp [get?, names]
  | cons f rest ih =>
      obtain ⟨k, w⟩ := f
      unfold get?
      split
      · next h => simp [names, h]
      · next h =>
          rw [ih]
          simp [names, Ne.symm h]

theorem contains_append :
    contains name (fs ++ gs) = (contains name fs || contains name gs) := by
  rw [Bool.eq_iff_iff, Bool.or_eq_true]
  simp only [contains_iff_mem_names, names, List.map_append, List.mem_append]

theorem get?_set : get? name (set other v fs) = if other = name then some v else get? name fs := by
  induction fs with
  | nil => rfl
  | cons f rest ih =>
      obtain ⟨k, w⟩ := f
      unfold set
      split
      · next h =>
          subst h
          unfold get?
          split <;> rfl
      · next h =>
          unfold get?
          split
          · next hk =>
              subst hk
              rw [if_neg (Ne.symm h)]
          · exact ih

theorem get?_append : get? name (fs ++ gs) = (get? name fs).or (get? name gs) := by
  induction fs with
  | nil => rfl
  | cons f rest ih =>
      obtain ⟨k, v⟩ := f
      rw [List.cons_append, get?, get?]
      split
      · rfl
      · exact ih

/-- A name that is there hides whatever stands behind. -/
theorem get?_or_of_mem {o : Option α} (h : name ∈ fs.names) :
    (get? name fs).or o = get? name fs := by
  obtain ⟨v, hv⟩ := Option.isSome_iff_exists.mp (contains_iff_mem_names.mpr h)
  rw [hv]
  rfl

theorem mem_names_reverse : name ∈ names fs.reverse ↔ name ∈ names fs := by
  rw [names, List.map_reverse]
  exact List.mem_reverse

/-- Fields that are written over others hide these; of two that have the same
name, the later one counts. -/
theorem get?_overlay (base top : Fields α) :
    get? name (overlay base top) = (get? name top.reverse).or (get? name base) := by
  induction top generalizing base with
  | nil => rfl
  | cons f rest ih =>
      obtain ⟨k, v⟩ := f
      show get? name (overlay (set k v base) rest) = _
      rw [ih, get?_set, List.reverse_cons, get?_append, Option.or_assoc, get?, get?]
      split <;> rfl

/-- If no name is given twice, it does not matter which one counts. -/
theorem get?_reverse (h : fs.names.Nodup) : get? name fs.reverse = get? name fs := by
  induction fs with
  | nil => rfl
  | cons f rest ih =>
      obtain ⟨k, v⟩ := f
      obtain ⟨hk, hrest⟩ := List.nodup_cons.mp h
      rw [List.reverse_cons, get?_append, ih hrest]
      simp only [get?]
      split
      · next hname =>
          subst hname
          cases hget : get? k rest with
          | none => rfl
          | some w =>
              refine absurd (contains_iff_mem_names.mp ?_) hk
              rw [contains, hget]
              rfl
      · exact Option.or_none

theorem get?_of_mem (hnames : fs.names.Nodup) (h : (name, v) ∈ fs) : fs.get? name = some v := by
  induction fs with
  | nil => cases h
  | cons f rest ih =>
      obtain ⟨k, w⟩ := f
      obtain ⟨hk, hrest⟩ := List.nodup_cons.mp hnames
      rcases List.mem_cons.mp h with heq | hmem
      · cases heq
        rw [get?, if_pos rfl]
      · have hne : k ≠ name := by
          intro hname
          refine hk (List.mem_map.mpr ⟨(name, v), hmem, hname.symm⟩)
        rw [get?, if_neg hne]
        exact ih hrest hmem

theorem mem_of_get? (h : get? name fs = some v) : (name, v) ∈ fs := by
  induction fs with
  | nil => cases h
  | cons f rest ih =>
      obtain ⟨k, w⟩ := f
      rw [get?] at h
      split at h
      · next hk =>
          cases h
          exact hk ▸ List.mem_cons_self
      · exact List.mem_cons_of_mem _ (ih h)

theorem mem_values_of_get? (h : get? name fs = some v) : v ∈ fs.values :=
  List.mem_map.mpr ⟨(name, v), mem_of_get? h, rfl⟩

/-- The order of fields does not count as long as no name is given twice. -/
theorem get?_perm (hnames : fs.names.Nodup) (h : fs.Perm gs) : get? name fs = get? name gs := by
  have hnames' : gs.names.Nodup := (h.map Prod.fst).nodup_iff.mp hnames
  refine Option.ext fun v => ⟨fun hv => ?_, fun hv => ?_⟩
  · exact get?_of_mem hnames' (h.mem_iff.mp (mem_of_get? hv))
  · exact get?_of_mem hnames (h.mem_iff.mpr (mem_of_get? hv))

theorem get?_eq_none_iff : get? name fs = none ↔ name ∉ fs.names := by
  rw [← contains_iff_mem_names, contains, Bool.not_eq_true, Option.isSome_eq_false_iff,
    Option.isNone_iff_eq_none]

/-! ## Writing -/

theorem set_set : set name w (set name v fs) = set name w fs := by
  induction fs with
  | nil => simp [set]
  | cons f rest ih =>
      obtain ⟨k, u⟩ := f
      by_cases hk : k = name
      · simp [set, hk]
      · simp [set, hk, ih]

/-- Two names can be written in either order if one of them is there already. -/
theorem set_comm (hne : other ≠ name) (h : other ∈ fs.names) :
    set other w (set name v fs) = set name v (set other w fs) := by
  induction fs with
  | nil => cases h
  | cons f rest ih =>
      obtain ⟨k, u⟩ := f
      by_cases hk : k = name
      · subst hk
        simp [set, hne.symm]
      · by_cases hk' : k = other
        · subst hk'
          simp [set, hk]
        · have hrest : other ∈ names rest := by
            rcases List.mem_cons.mp h with heq | hmem
            · exact absurd heq.symm hk'
            · exact hmem
          simp [set, hk, hk', ih hrest]

theorem mem_names_set (h : other ∈ fs.names) : other ∈ (set name v fs).names := by
  rw [← contains_iff_mem_names, contains] at h ⊢
  rw [get?_set]
  split
  · rfl
  · exact h

theorem mem_names_overlay (h : name ∈ top.names) : name ∈ (overlay fs top).names := by
  rw [← mem_names_reverse, ← contains_iff_mem_names, contains] at h
  rw [← contains_iff_mem_names, contains, get?_overlay, Option.isSome_or, h, Bool.true_or]

theorem overlay_append_singleton :
    overlay fs (top ++ [(name, v)]) = set name v (overlay fs top) := by
  rw [overlay, List.foldl_append]
  rfl

/-- Where the other names are there already, a name that is written last may as
well have been written before. -/
theorem set_overlay_set (h : ∀ other ∈ top.names, other ∈ fs.names) :
    set name v (overlay (set name v fs) top) = set name v (overlay fs top) := by
  induction top generalizing fs with
  | nil => exact set_set
  | cons f rest ih =>
      obtain ⟨k, w⟩ := f
      obtain ⟨hk, hrest⟩ := List.forall_mem_cons.mp h
      show set name v (overlay (set k w (set name v fs)) rest) =
        set name v (overlay (set k w fs) rest)
      by_cases hname : k = name
      · subst hname
        rw [set_set]
      · rw [set_comm hname hk]
        exact ih fun other hother => mem_names_set (hrest other hother)

theorem overlay_overlay : ∀ fs top : Fields α, overlay (overlay fs top) top = overlay fs top := by
  intro fs top
  induction top using List.reverseRecOn with
  | nil => rfl
  | append_singleton rest f ih =>
      obtain ⟨k, w⟩ := f
      rw [overlay_append_singleton, overlay_append_singleton,
        set_overlay_set fun other hother => mem_names_overlay hother, ih]

theorem names_set :
    names (set name v fs) = if name ∈ fs.names then fs.names else fs.names ++ [name] := by
  induction fs with
  | nil => rfl
  | cons f rest ih =>
      obtain ⟨k, w⟩ := f
      rw [set]
      by_cases hk : k = name
      · simp [names, hk]
      · rw [if_neg hk]
        show k :: names (set name v rest) = _
        rw [ih]
        by_cases hrest : name ∈ names rest
        · have hmem : name ∈ names ((k, w) :: rest) := List.mem_cons_of_mem k hrest
          rw [if_pos hrest, if_pos hmem]
          rfl
        · have hnot : name ∉ names ((k, w) :: rest) :=
            fun h => (List.mem_cons.mp h).elim (fun heq => hk heq.symm) hrest
          rw [if_neg hrest, if_neg hnot]
          rfl

/-- Names that are written over others come behind these, if they are new. -/
theorem names_overlay (base : Fields α) (h : top.names.Nodup) :
    (overlay base top).names = base.names ++ top.names.filter (· ∉ base.names) := by
  induction top generalizing base with
  | nil => simp [overlay, names]
  | cons f rest ih =>
      obtain ⟨k, w⟩ := f
      obtain ⟨hk, hrest⟩ := List.nodup_cons.mp h
      show (overlay (set k w base) rest).names = base.names ++ (k :: names rest).filter _
      rw [ih _ hrest, names_set]
      by_cases hin : k ∈ base.names
      · rw [if_pos hin, List.filter_cons_of_neg (by simpa using hin)]
      · rw [if_neg hin, List.filter_cons_of_pos (by simpa using hin), List.append_assoc]
        -- The name itself does not come again.
        refine congrArg (base.names ++ k :: ·) (List.filter_congr fun name hname => ?_)
        have hne : name ≠ k := fun heq => hk (heq ▸ hname)
        simp [hne]

theorem nodup_set (h : fs.names.Nodup) : (set name v fs).names.Nodup := by
  rw [names_set]
  split
  · exact h
  · next hnot =>
      refine List.nodup_append.mpr ⟨h, by simp, fun k hk k' hk' heq => ?_⟩
      exact hnot (List.mem_singleton.mp hk' ▸ heq ▸ hk)

theorem nodup_overlay (h : fs.names.Nodup) : (overlay fs top).names.Nodup := by
  induction top generalizing fs with
  | nil => exact h
  | cons f rest ih => exact ih (nodup_set h)

/-- A name that is there already and is not written any more can be written at
once. -/
theorem set_overlay (hin : name ∈ fs.names) (hout : name ∉ top.names) :
    set name v (overlay fs top) = overlay (set name v fs) top := by
  induction top generalizing fs with
  | nil => rfl
  | cons f rest ih =>
      obtain ⟨k, w⟩ := f
      have hne : name ≠ k := fun heq => hout (heq ▸ List.mem_cons_self)
      show set name v (overlay (set k w fs) rest) = overlay (set k w (set name v fs)) rest
      rw [ih (mem_names_set hin) fun hmem => hout (List.mem_cons_of_mem k hmem), set_comm hne hin]

/-- A name can be written before its fields are written over others, or
afterwards. -/
theorem overlay_set (base : Fields α) (h : fs.names.Nodup) :
    overlay base (set name v fs) = set name v (overlay base fs) := by
  induction fs generalizing base with
  | nil => rfl
  | cons f rest ih =>
      obtain ⟨k, w⟩ := f
      obtain ⟨hk, hrest⟩ := List.nodup_cons.mp h
      rw [set]
      by_cases hname : k = name
      · subst hname
        have hin : k ∈ (set k w base).names := by
          rw [← contains_iff_mem_names, contains, get?_set, if_pos rfl]
          rfl
        rw [if_pos rfl]
        show overlay (set k v base) rest = set k v (overlay (set k w base) rest)
        rw [set_overlay hin hk, set_set]
      · rw [if_neg hname]
        exact ih (set k w base) hrest

theorem overlay_assoc (base : Fields α) (h : fs.names.Nodup) :
    overlay (overlay base fs) top = overlay base (overlay fs top) := by
  induction top generalizing fs with
  | nil => rfl
  | cons f rest ih =>
      obtain ⟨k, w⟩ := f
      show overlay (set k w (overlay base fs)) rest = overlay base (overlay (set k w fs) rest)
      rw [← overlay_set base h, ih (nodup_set h)]

end Fields

end Conduit
