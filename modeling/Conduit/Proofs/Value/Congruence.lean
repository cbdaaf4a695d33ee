import Conduit.Proofs.Query.Place
import Conduit.Proofs.Value.Equality
import Conduit.Query.Resolve
import Mathlib.Data.List.Perm.Subperm
import Mathlib.Logic.Relation

/-!
# Equality of JSON values

Two arrays are equal if they have equal items at each position, two objects if
they have equal fields under each name. So equality of JSON values is symmetric
and transitive and does not see the order of fields, and what is read from equal
values by the same segments is equal again. Only NaN keeps it from being an
equivalence.
-/

namespace Conduit

/-! ## Members at the same place -/

section Members

variable {α : Type} {R S T : α → α → Prop} {x y z : Option α}

theorem exists_of_rel_some {a : α} (h : Option.Rel R (some a) y) : ∃ b, y = some b ∧ R a b := by
  cases h with
  | some hab => exact ⟨_, rfl, hab⟩

theorem rel_swap (hR : ∀ a, x = some a → ∀ b, y = some b → R a b → S b a)
    (h : Option.Rel R x y) : Option.Rel S y x := by
  cases h with
  | none => exact .none
  | some hab => exact .some (hR _ rfl _ rfl hab)

theorem rel_compose (hR : ∀ a, x = some a → ∀ b, y = some b → ∀ c, z = some c →
    R a b → S b c → T a c)
    (hxy : Option.Rel R x y) (hyz : Option.Rel S y z) : Option.Rel T x z := by
  cases hxy with
  | none => cases hyz with | none => exact .none
  | some hab => cases hyz with | some hbc => exact .some (hR _ rfl _ rfl _ rfl hab hbc)

theorem length_eq_of_rel {xs ys : List α} (h : ∀ i : Nat, Option.Rel R xs[i]? ys[i]?) :
    xs.length = ys.length := by
  induction xs generalizing ys with
  | nil =>
      cases ys with
      | nil => rfl
      | cons y ys => cases h 0
  | cons x xs ih =>
      cases ys with
      | nil => cases h 0
      | cons y ys => exact congrArg (· + 1) (ih fun i => h (i + 1))

theorem names_subset_of_rel {fs gs : Fields α}
    (h : ∀ name, Option.Rel R (fs.get? name) (gs.get? name)) : fs.names ⊆ gs.names := by
  intro name hname
  by_contra hnot
  have hrel := h name
  rw [Fields.get?_eq_none_iff.mpr hnot] at hrel
  cases hget : fs.get? name with
  | none => exact Fields.get?_eq_none_iff.mp hget hname
  | some v =>
      rw [hget] at hrel
      obtain ⟨w, hw, -⟩ := exists_of_rel_some hrel
      cases hw

/-- A list in which one item is replaced by another one. -/
theorem rel_of_replace_item {before after : List α} {a b : α} {i : Nat}
    (hR : ∀ c, y = some c → R a c → R b c) (h : Option.Rel R (before ++ a :: after)[i]? y) :
    Option.Rel R (before ++ b :: after)[i]? y := by
  induction before generalizing i with
  | nil =>
      cases i with
      | succ i => exact h
      | zero =>
          obtain ⟨c, rfl, hac⟩ := exists_of_rel_some h
          exact .some (hR c rfl hac)
  | cons _ rest ih =>
      cases i with
      | zero => exact h
      | succ i => exact ih h

theorem rel_of_replace_field {before after : Fields α} {a b : α} {name key : String}
    (hR : ∀ c, y = some c → R a c → R b c)
    (h : Option.Rel R (Fields.get? key (before ++ (name, a) :: after)) y) :
    Option.Rel R (Fields.get? key (before ++ (name, b) :: after)) y := by
  rw [Fields.get?_append, Fields.get?] at h ⊢
  cases hbefore : Fields.get? key before with
  | some v => rwa [hbefore] at h
  | none =>
      rw [hbefore] at h
      split
      · next hname =>
          rw [if_pos hname] at h
          obtain ⟨c, rfl, hac⟩ := exists_of_rel_some h
          exact .some (hR c rfl hac)
      · next hname => rwa [if_neg hname] at h

end Members

namespace Value

/-! ## JSON values -/

/-- What JSON has a notation for: no date, no keys that are not strings, and
each name of an object once. -/
def IsWritable : Value → Prop
  | .date _ => False
  | .mapping _ => False
  | v => v.NamesOnce

def IsJson (v : Value) : Prop := v.Throughout IsWritable

/-- What holds throughout a value holds of it and throughout its children. -/
theorem throughout_iff {P : Value → Prop} {v : Value} (h : ∀ es, v ≠ .mapping es) :
    v.Throughout P ↔ P v ∧ ∀ c ∈ v.children, c.Throughout P := by
  cases v with
  | arr xs => rw [Throughout, throughoutItems_iff, children]
  | obj fs => rw [Throughout, throughoutFields_iff, children]
  | mapping es => exact absurd rfl (h es)
  | _ => simp [Throughout, children]

variable {u v w : Value} {xs ys : List Value} {fs gs : Fields Value}

theorem IsJson.ne_mapping (hv : v.IsJson) (es : List (Value × Value)) : v ≠ .mapping es := by
  rintro rfl
  exact hv.1

theorem isJson_iff : v.IsJson ↔ v.IsWritable ∧ ∀ c ∈ v.children, c.IsJson := by
  by_cases h : ∀ es, v ≠ .mapping es
  · exact throughout_iff h
  · obtain ⟨es, hes⟩ := not_forall.mp h
    obtain rfl := not_not.mp hes
    exact iff_of_false (fun hv => hv.1) fun hv => hv.1

theorem IsJson.child (hv : v.IsJson) (h : w ∈ v.children) : w.IsJson := (isJson_iff.mp hv).2 w h

theorem IsJson.namesOnce (hv : v.IsJson) : v.Throughout NamesOnce := by
  induction v using induction_on_children with
  | h v ih =>
      obtain ⟨hwritable, hchildren⟩ := isJson_iff.mp hv
      refine (throughout_iff hv.ne_mapping).mpr ⟨?_, fun c hc => ih c hc (hchildren c hc)⟩
      cases v with
      | obj fs => exact hwritable
      | _ => trivial

theorem IsJson.names_nodup (h : (obj fs).IsJson) : fs.names.Nodup := h.1

/-! ## Equality by parts -/

theorem equalItems_iff : equalItems xs ys = true ↔
    ∀ i : Nat, Option.Rel (fun x y => x.equal y = true) xs[i]? ys[i]? := by
  induction xs generalizing ys with
  | nil =>
      cases ys with
      | nil => exact iff_of_true (by rw [equalItems]) fun i => .none
      | cons y ys => exact iff_of_false (by simp [equalItems]) fun h => nomatch h 0
  | cons x xs ih =>
      cases ys with
      | nil => exact iff_of_false (by simp [equalItems]) fun h => nomatch h 0
      | cons y ys =>
          rw [equalItems, Bool.and_eq_true, ih]
          refine ⟨fun ⟨hhead, htail⟩ i => ?_, fun h => ⟨?_, fun i => h (i + 1)⟩⟩
          · cases i with
            | zero => exact .some hhead
            | succ i => exact htail i
          · cases h 0 with
            | some hhead => exact hhead

theorem equalFields_iff : equalFields fs gs = true ↔
    ∀ p ∈ fs, ∃ w, gs.get? p.1 = some w ∧ p.2.equal w = true := by
  induction fs with
  | nil => exact iff_of_true (by rw [equalFields]) (List.forall_mem_nil _)
  | cons f rest ih =>
      obtain ⟨k, v⟩ := f
      rw [equalFields, Bool.and_eq_true, ih, List.forall_mem_cons]
      refine and_congr_left fun _ => ?_
      cases Fields.get? k gs <;> simp

/-- As many names, all among the others, are all of them. -/
theorem equal_obj_iff (hf : fs.names.Nodup) (hg : gs.names.Nodup) :
    (obj fs).equal (obj gs) = true ↔
      ∀ name, Option.Rel (fun v w => v.equal w = true) (fs.get? name) (gs.get? name) := by
  rw [equal, Bool.and_eq_true, beq_iff_eq, equalFields_iff]
  constructor
  · rintro ⟨hlength, hfields⟩ name
    cases hget : fs.get? name with
    | some v =>
        obtain ⟨w, hw, heq⟩ := hfields _ (Fields.mem_of_get? hget)
        rw [hw]
        exact .some heq
    | none =>
        have hsubset : fs.names ⊆ gs.names := by
          intro k hk
          obtain ⟨p, hp, rfl⟩ := List.mem_map.mp hk
          obtain ⟨w, hw, -⟩ := hfields p hp
          exact List.mem_map.mpr ⟨_, Fields.mem_of_get? hw, rfl⟩
        have hle : gs.names.length ≤ fs.names.length := by simp [Fields.names, hlength]
        have hperm : fs.names.Perm gs.names := (hf.subperm hsubset).perm_of_length_le hle
        have hnot : name ∉ gs.names := fun h =>
          Fields.get?_eq_none_iff.mp hget (hperm.mem_iff.mpr h)
        rw [Fields.get?_eq_none_iff.mpr hnot]
        exact .none
  · intro h
    have hsubset := names_subset_of_rel h
    have hsubset' := names_subset_of_rel fun name => rel_swap (fun _ _ _ _ hab => hab) (h name)
    have hperm : fs.names.Perm gs.names :=
      (List.perm_ext_iff_of_nodup hf hg).mpr fun k => ⟨fun hk => hsubset hk, fun hk => hsubset' hk⟩
    refine ⟨by simpa [Fields.names] using hperm.length_eq, fun p hp => ?_⟩
    have hrel := h p.1
    rw [Fields.get?_of_mem hf hp] at hrel
    exact exists_of_rel_some hrel

/-- How two JSON values are equal: they are of one form, and their members at
the same places are equal. -/
inductive EqualByParts : Value → Value → Prop
  | null : EqualByParts .null .null
  | bool (b : Bool) : EqualByParts (.bool b) (.bool b)
  | number {m n : Number} (h : m.equal n = true) : EqualByParts (.number m) (.number n)
  | str (s : String) : EqualByParts (.str s) (.str s)
  | arr {xs ys : List Value}
      (h : ∀ i : Nat, Option.Rel (fun x y => x.equal y = true) xs[i]? ys[i]?) :
      EqualByParts (.arr xs) (.arr ys)
  | obj {fs gs : Fields Value}
      (h : ∀ name, Option.Rel (fun v w => v.equal w = true) (fs.get? name) (gs.get? name)) :
      EqualByParts (.obj fs) (.obj gs)

theorem equal_iff (hv : v.IsJson) (hw : w.IsJson) : v.equal w = true ↔ EqualByParts v w := by
  constructor
  · intro h
    cases v with
    | date d => exact hv.elim
    | mapping es => exact absurd rfl (hv.ne_mapping es)
    | null => cases w <;> first | exact .null | simp [equal] at h
    | bool b =>
        cases w with
        | bool c =>
            obtain rfl : b = c := by simpa [equal] using h
            exact .bool b
        | _ => simp [equal] at h
    | number m =>
        cases w with
        | number n => exact .number (by simpa [equal] using h)
        | _ => simp [equal] at h
    | str s =>
        cases w with
        | str t =>
            obtain rfl : s = t := by simpa [equal] using h
            exact .str s
        | _ => simp [equal] at h
    | arr xs =>
        cases w with
        | arr ys => exact .arr (equalItems_iff.mp (by simpa [equal] using h))
        | _ => simp [equal] at h
    | obj fs =>
        cases w with
        | obj gs => exact .obj ((equal_obj_iff hv.names_nodup hw.names_nodup).mp h)
        | _ => simp [equal] at h
  · rintro (_ | b | h | s | h | h)
    · rw [equal]
    · simp [equal]
    · simpa [equal] using h
    · simp [equal]
    · rw [equal]
      exact equalItems_iff.mpr h
    · exact (equal_obj_iff hv.names_nodup hw.names_nodup).mpr h

theorem mem_children_of_getElem? {i : Nat} (h : xs[i]? = some v) : v ∈ (arr xs).children :=
  List.mem_of_getElem? h

theorem mem_children_of_get? {name : String} (h : fs.get? name = some v) : v ∈ (obj fs).children :=
  Fields.mem_values_of_get? h

theorem equal_symm (hv : v.IsJson) (hw : w.IsJson) (h : v.equal w = true) :
    w.equal v = true := by
  induction v using induction_on_children generalizing w with
  | h v ih =>
      refine (equal_iff hw hv).mpr ?_
      cases (equal_iff hv hw).mp h with
      | null => exact .null
      | bool b => exact .bool b
      | number hmn => exact .number (Number.equal_symm hmn)
      | str s => exact .str s
      | arr hitems =>
          refine .arr fun i => rel_swap (fun x hx y hy => ?_) (hitems i)
          have hx := mem_children_of_getElem? hx
          exact ih x hx (hv.child hx) (hw.child (mem_children_of_getElem? hy))
      | obj hfields =>
          refine .obj fun name => rel_swap (fun x hx y hy => ?_) (hfields name)
          have hx := mem_children_of_get? hx
          exact ih x hx (hv.child hx) (hw.child (mem_children_of_get? hy))

theorem equal_comm (hv : v.IsJson) (hw : w.IsJson) : v.equal w = w.equal v :=
  Bool.eq_iff_iff.mpr ⟨equal_symm hv hw, equal_symm hw hv⟩

theorem equal_trans (hu : u.IsJson) (hv : v.IsJson) (hw : w.IsJson) (huv : u.equal v = true)
    (hvw : v.equal w = true) : u.equal w = true := by
  induction u using induction_on_children generalizing v w with
  | h u ih =>
      refine (equal_iff hu hw).mpr ?_
      have hparts := (equal_iff hv hw).mp hvw
      cases (equal_iff hu hv).mp huv with
      | null => exact hparts
      | bool b => exact hparts
      | str s => exact hparts
      | number hmn =>
          cases hparts with
          | number hnl => exact .number (Number.equal_trans hmn hnl)
      | arr hitems =>
          cases hparts with
          | arr hitems' =>
              refine .arr fun i => rel_compose (fun x hx y hy z hz => ?_) (hitems i) (hitems' i)
              have hx := mem_children_of_getElem? hx
              exact ih x hx (hu.child hx) (hv.child (mem_children_of_getElem? hy))
                (hw.child (mem_children_of_getElem? hz))
      | obj hfields =>
          cases hparts with
          | obj hfields' =>
              refine .obj fun name =>
                rel_compose (fun x hx y hy z hz => ?_) (hfields name) (hfields' name)
              have hx := mem_children_of_get? hx
              exact ih x hx (hu.child hx) (hv.child (mem_children_of_get? hy))
                (hw.child (mem_children_of_get? hz))

/-- Only a value without NaN is equal to itself. -/
theorem isNotNaN_of_equal_self (hv : v.IsJson) (h : v.equal v = true) :
    v.Throughout IsNotNaN := by
  induction v using induction_on_children with
  | h v ih =>
      have hchildren : v.IsNotNaN ∧ ∀ c ∈ v.children, c.equal c = true := by
        cases (equal_iff hv hv).mp h with
        | null => exact ⟨nofun, nofun⟩
        | bool b => exact ⟨nofun, nofun⟩
        | str s => exact ⟨nofun, nofun⟩
        | number hn =>
            refine ⟨?_, nofun⟩
            rintro ⟨⟩
            exact Number.ne_nan_of_equal hn rfl
        | @arr xs _ hitems =>
            refine ⟨nofun, fun c hc => ?_⟩
            obtain ⟨i, hi⟩ : ∃ i : Nat, xs[i]? = some c := List.mem_iff_getElem?.mp hc
            have hrel := hitems i
            rw [hi] at hrel
            obtain ⟨_, ⟨⟩, heq⟩ := exists_of_rel_some hrel
            exact heq
        | obj hfields =>
            refine ⟨nofun, fun c hc => ?_⟩
            obtain ⟨⟨name, c⟩, hmem, rfl⟩ := List.mem_map.mp hc
            have hrel := hfields name
            rw [Fields.get?_of_mem hv.names_nodup hmem] at hrel
            obtain ⟨_, ⟨⟩, heq⟩ := exists_of_rel_some hrel
            exact heq
      refine (throughout_iff hv.ne_mapping).mpr ⟨hchildren.1, fun c hc => ?_⟩
      exact ih c hc (hv.child hc) (hchildren.2 c hc)

/-! ## The order of fields -/

/-- Somewhere in a value, the fields of one object are put in another order. -/
inductive Reorders : Value → Value → Prop
  | here {fs gs : Fields Value} (h : fs.Perm gs) : Reorders (.obj fs) (.obj gs)
  | item (before after : List Value) {v w : Value} (h : Reorders v w) :
      Reorders (.arr (before ++ v :: after)) (.arr (before ++ w :: after))
  | field (before after : Fields Value) (name : String) {v w : Value} (h : Reorders v w) :
      Reorders (.obj (before ++ (name, v) :: after)) (.obj (before ++ (name, w) :: after))

theorem Reorders.isJson (h : Reorders v w) (hv : v.IsJson) : w.IsJson := by
  induction h with
  | here hperm =>
      obtain ⟨hnames, hfields⟩ := isJson_iff.mp hv
      refine isJson_iff.mpr ⟨(hperm.map Prod.fst).nodup_iff.mp hnames, fun c hc => ?_⟩
      exact hfields c ((hperm.map Prod.snd).mem_iff.mpr hc)
  | item before after _ ih =>
      obtain ⟨-, hitems⟩ := isJson_iff.mp hv
      refine isJson_iff.mpr ⟨trivial, ?_⟩
      simp only [children, List.forall_mem_append, List.forall_mem_cons] at hitems ⊢
      exact ⟨hitems.1, ih hitems.2.1, hitems.2.2⟩
  | field before after name _ ih =>
      obtain ⟨hnames, hfields⟩ := isJson_iff.mp hv
      simp only [IsWritable, NamesOnce, Fields.names, List.map_append, List.map_cons] at hnames
      simp only [children, Fields.values, List.map_append, List.map_cons,
        List.forall_mem_append, List.forall_mem_cons] at hfields
      refine isJson_iff.mpr ⟨?_, ?_⟩
      · simpa only [IsWritable, NamesOnce, Fields.names, List.map_append, List.map_cons]
      · simp only [children, Fields.values, List.map_append, List.map_cons,
          List.forall_mem_append, List.forall_mem_cons]
        exact ⟨hfields.1, ih hfields.2.1, hfields.2.2⟩

theorem Reorders.symm (h : Reorders v w) : Reorders w v := by
  induction h with
  | here hperm => exact .here hperm.symm
  | item before after _ ih => exact .item before after ih
  | field before after name _ ih => exact .field before after name ih

theorem Reorders.equal_imp (h : Reorders v w) (hv : v.IsJson) (hu : u.IsJson)
    (heq : v.equal u = true) : w.equal u = true := by
  have hw := h.isJson hv
  refine (equal_iff hw hu).mpr ?_
  induction h generalizing u with
  | here hperm =>
      cases (equal_iff hv hu).mp heq with
      | obj hfields => exact .obj fun name => Fields.get?_perm hv.names_nodup hperm ▸ hfields name
  | @item before after x y hxy ih =>
      cases (equal_iff hv hu).mp heq with
      | arr hitems =>
          have hx : x.IsJson := hv.child (List.mem_append_right _ List.mem_cons_self)
          have hy := hxy.isJson hx
          refine .arr fun i => rel_of_replace_item (fun z hz hxz => ?_) (hitems i)
          have hz := hu.child (mem_children_of_getElem? hz)
          exact (equal_iff hy hz).mpr (ih hx hz hxz hy)
  | @field before after name x y hxy ih =>
      cases (equal_iff hv hu).mp heq with
      | obj hfields =>
          have hx : x.IsJson :=
            hv.child (List.mem_map.mpr ⟨(name, x), List.mem_append_right _ List.mem_cons_self, rfl⟩)
          have hy := hxy.isJson hx
          refine .obj fun k => rel_of_replace_field (fun z hz hxz => ?_) (hfields k)
          have hz := hu.child (mem_children_of_get? hz)
          exact (equal_iff hy hz).mpr (ih hx hz hxz hy)

theorem Reorders.equal_eq (h : Reorders v w) (hv : v.IsJson) (hu : u.IsJson) :
    w.equal u = v.equal u :=
  Bool.eq_iff_iff.mpr ⟨h.symm.equal_imp (h.isJson hv) hu, h.equal_imp hv hu⟩

theorem equal_reordered (h : Relation.ReflTransGen Reorders v w) (hv : v.IsJson) :
    w.IsJson ∧ ∀ u : Value, u.IsJson → w.equal u = v.equal u := by
  induction h with
  | refl => exact ⟨hv, fun _ _ => rfl⟩
  | tail _ hstep ih =>
      obtain ⟨hbefore, heq⟩ := ih
      refine ⟨hstep.isJson hbefore, fun u hu => ?_⟩
      rw [hstep.equal_eq hbefore hu, heq u hu]

/-! ## What equal values share -/

theorem kind_eq_of_equal (hv : v.IsJson) (hw : w.IsJson) (h : v.equal w = true) :
    v.kind = w.kind := by
  cases (equal_iff hv hw).mp h <;> rfl

theorem truthy_eq_of_equal (hv : v.IsJson) (hw : w.IsJson) (h : v.equal w = true) :
    v.truthy = w.truthy := by
  cases (equal_iff hv hw).mp h with
  | null => rfl
  | bool b => rfl
  | str s => rfl
  | number hmn => rw [truthy, truthy, Number.isZero_congr hmn]
  | @arr xs ys hitems =>
      have hlength := length_eq_of_rel hitems
      rw [truthy, truthy]
      cases xs <;> cases ys <;> first | rfl | cases hlength
  | @obj fs gs hfields =>
      have hnames := names_subset_of_rel hfields
      have hnames' := names_subset_of_rel fun name =>
        rel_swap (fun _ _ _ _ h => h) (hfields name)
      rw [truthy, truthy]
      cases fs with
      | nil =>
          cases gs with
          | nil => rfl
          | cons g gs => cases hnames' List.mem_cons_self
      | cons f fs =>
          cases gs with
          | nil => cases hnames List.mem_cons_self
          | cons g gs => rfl

/-- Two walks end alike: at equal values, or for the same reason. -/
inductive EndsAlike {ε : Type} : Except ε Value → Except ε Value → Prop
  | ok {v w : Value} (h : v.equal w = true) : EndsAlike (.ok v) (.ok w)
  | error (e : ε) : EndsAlike (.error e) (.error e)

theorem rel_element? (h : ∀ i : Nat, Option.Rel (fun x y => x.equal y = true) xs[i]? ys[i]?)
    (i : Int) : Option.Rel (fun x y => x.equal y = true) (element? xs i) (element? ys i) := by
  rw [element?, element?, ← length_eq_of_rel h]
  split
  · exact h _
  · split
    · exact h _
    · exact .none

theorem mem_of_element? {i : Int} (h : element? xs i = some v) : v ∈ xs := by
  rw [element?] at h
  split at h
  · exact List.mem_of_getElem? h
  · split at h
    · exact List.mem_of_getElem? h
    · cases h

end Value

namespace Step

open Value (EndsAlike)

variable {path : String} {v w : Value} {s : Step}

/-- What is found, or that there is nothing. -/
def found (path : String) (o : Option Value) : Except Failure Value :=
  o.elim (.error (.pathNotFound path)) .ok

theorem found_alike {x y : Option Value} (h : Option.Rel (fun v w => v.equal w = true) x y) :
    EndsAlike (found path x) (found path y) := by
  cases h with
  | none => exact .error _
  | some h => exact .ok h

theorem follow_field_arr (path name : String) (xs : List Value) :
    (field name).follow path (.arr xs) =
      if Value.isPosition name then
        (Value.positionOf name).mapError .limit >>= fun n => found path xs[n]?
      else found path none := by
  rw [follow]
  split
  · cases Value.positionOf name with
    | error l => rfl
    | ok n =>
        dsimp only [Except.mapError, bind, Except.bind]
        cases xs[n]? <;> rfl
  · rfl

theorem follow_field_obj (path name : String) (fs : Fields Value) :
    (field name).follow path (.obj fs) = found path (fs.get? name) := by
  have hfield : Value.field? name (.obj fs) = fs.get? name := rfl
  unfold follow
  dsimp only
  rw [hfield]
  cases fs.get? name <;> rfl

theorem follow_index_arr (path : String) (i : Int) (xs : List Value) :
    (index i).follow path (.arr xs) = found path (Value.element? xs i) := by
  unfold follow
  dsimp only
  cases Value.element? xs i <;> rfl

/-- A step from a JSON value leads to one of its children. -/
theorem mem_children_of_follow (hv : v.IsJson) (h : s.follow path v = .ok w) :
    w ∈ v.children := by
  have hfound : ∀ {o : Option Value}, found path o = .ok w → o = some w := by
    rintro (_ | x) hx
    · cases hx
    · cases hx
      rfl
  cases s with
  | field name =>
      cases v with
      | mapping es => exact absurd rfl (hv.ne_mapping es)
      | arr xs =>
          rw [follow_field_arr] at h
          split at h
          · cases hn : Value.positionOf name with
            | error l =>
                rw [hn] at h
                cases h
            | ok n =>
                rw [hn] at h
                exact List.mem_of_getElem? (hfound h)
          · cases h
      | obj fs =>
          rw [follow_field_obj] at h
          exact Value.mem_children_of_get? (hfound h)
      | _ => cases h
  | index i =>
      cases v with
      | arr xs =>
          rw [follow_index_arr] at h
          exact Value.mem_of_element? (hfound h)
      | _ => cases h

/-- The same step leads from equal values to equal values. -/
theorem follow_alike (path : String) (s : Step) (hv : v.IsJson) (hw : w.IsJson)
    (h : v.equal w = true) :
    EndsAlike (s.follow path v) (s.follow path w) := by
  cases s with
  | field name =>
      cases (Value.equal_iff hv hw).mp h with
      | arr hitems =>
          rw [follow_field_arr, follow_field_arr]
          split
          · cases Value.positionOf name with
            | error l => exact .error _
            | ok n => exact found_alike (hitems n)
          · exact .error _
      | obj hfields =>
          rw [follow_field_obj, follow_field_obj]
          exact found_alike (hfields name)
      | _ => exact .error _
  | index i =>
      cases (Value.equal_iff hv hw).mp h with
      | arr hitems =>
          rw [follow_index_arr, follow_index_arr]
          exact found_alike (Value.rel_element? hitems i)
      | _ => exact .error _

end Step

namespace Segment

open Value (EndsAlike)

/-- The same segments lead from equal values to equal values. -/
theorem resolve_alike {P : Type} (path : String) (segments : List (Segment P)) {v w : Value}
    (hv : v.IsJson) (hw : w.IsJson) (h : v.equal w = true) :
    EndsAlike (resolve path segments v) (resolve path segments w) := by
  induction segments generalizing v w with
  | nil => exact .ok h
  | cons segment rest ih =>
      cases segment with
      | step s =>
          have halike := Step.follow_alike path s hv hw h
          rw [resolve, resolve]
          cases hv' : s.follow path v with
          | error f =>
              rw [hv'] at halike
              cases hw' : s.follow path w with
              | error g =>
                  rw [hw'] at halike
                  cases halike
                  exact .error _
              | ok y =>
                  rw [hw'] at halike
                  cases halike
          | ok x =>
              rw [hv'] at halike
              cases hw' : s.follow path w with
              | error g =>
                  rw [hw'] at halike
                  cases halike
              | ok y =>
                  rw [hw'] at halike
                  cases halike with
                  | ok hxy =>
                      exact ih (hv.child (Step.mem_children_of_follow hv hv'))
                        (hw.child (Step.mem_children_of_follow hw hw')) hxy
      | _ => exact .error _

end Segment

namespace Value

variable {a b : Value}

/-- On JSON values equality is symmetric and transitive, and reflexive except
for values with NaN in them; it does not see the order of fields at any depth,
and equal values agree in kind, truth and all that segments read from them. -/
theorem equal_congruence (ha : a.IsJson) (hb : b.IsJson) :
    a.equal b = b.equal a ∧
    (∀ c : Value, c.IsJson → a.equal b = true → b.equal c = true → a.equal c = true) ∧
    (a.equal a = true ↔ a.Throughout IsNotNaN) ∧
    (∀ a' b', Relation.ReflTransGen Reorders a a' → Relation.ReflTransGen Reorders b b' →
      a'.equal b' = a.equal b) ∧
    (a.equal b = true → a.kind = b.kind ∧ a.truthy = b.truthy ∧
      ∀ (P : Type) (path : String) (segments : List (Segment P)),
        EndsAlike (Segment.resolve path segments a) (Segment.resolve path segments b)) := by
  refine ⟨equal_comm ha hb, fun c hc => equal_trans ha hb hc,
    ⟨isNotNaN_of_equal_self ha, fun hnan => equal_self a hnan ha.namesOnce⟩,
    fun a' b' hreorder hreorder' => ?_, fun h => ?_⟩
  · obtain ⟨ha', heq⟩ := equal_reordered hreorder ha
    obtain ⟨hb', heq'⟩ := equal_reordered hreorder' hb
    calc a'.equal b' = b'.equal a' := equal_comm ha' hb'
      _ = b.equal a' := heq' a' ha'
      _ = a'.equal b := equal_comm hb ha'
      _ = a.equal b := heq b hb
  · exact ⟨kind_eq_of_equal ha hb h, truthy_eq_of_equal ha hb h,
      fun P path segments => Segment.resolve_alike path segments ha hb h⟩

/-- An object written in another order and with `1.0` for `1`. -/
theorem equal_congruence_rewritten :
    let a : Value := .obj [("x", .int 1), ("y", .arr [.null])]
    let b : Value :=
      .obj [("y", .arr [.null]), ("x", .number (.double (.finite false 4503599627370496 (-52))))]
    let segments : List (Segment Unit) := [.step (.field "y"), .step (.field "0")]
    a.IsJson ∧ b.IsJson ∧ a.equal b = true ∧ b.equal a = true ∧ a.truthy = b.truthy ∧
      EndsAlike (Segment.resolve "y.0" segments a) (Segment.resolve "y.0" segments b) := by
  intro a b segments
  have ha : a.IsJson := by
    simp [a, IsJson, IsWritable, NamesOnce, Throughout, ThroughoutFields, ThroughoutItems,
      Fields.names, int]
  have hb : b.IsJson := by
    simp [b, IsJson, IsWritable, NamesOnce, Throughout, ThroughoutFields, ThroughoutItems,
      Fields.names]
  have hone : Number.equal (.int 1) (.double (.finite false 4503599627370496 (-52))) = true := by
    decide +kernel
  have heq : a.equal b = true := by
    simp [a, b, int, equal, equalItems, equalFields, Fields.get?, hone]
  obtain ⟨hcomm, -, -, -, hshared⟩ := equal_congruence ha hb
  obtain ⟨-, htruthy, hresolve⟩ := hshared heq
  exact ⟨ha, hb, heq, hcomm ▸ heq, htruthy, hresolve Unit _ _⟩

end Value

end Conduit
