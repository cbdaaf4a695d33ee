import Conduit.Proofs.Scope
import Conduit.Pipeline.Check

/-!
# The check of a run, stage by stage

What a check reports of a run is what it reports of the first stage and
then of the others, with the name of the first stage known. So if all
diagnostics of a run have a property, those of each stage have it.
-/

namespace Conduit

namespace Pipeline

/-- What is known after a stage, whether it has a name or not. -/
def Known.after (known : Known) (p : Placed) : Known :=
  match p.stage.name with
  | some name => known.add p name
  | none => known

variable {schemas : Option (List String)} {known : Known} {p : Placed} {rest : List Placed}
  {Q : Diagnostic → Prop}

/-- What is reported of a run with a first stage. -/
structure OfFirst (schemas : Option (List String)) (known : Known) (p : Placed)
    (rest : List Placed) (Q : Diagnostic → Prop) : Prop where
  reads : ∀ d ∈ checkReads known p, Q d
  lookups : ∀ d ∈ checkSchemas schemas p, Q d
  name : ∀ {name}, p.stage.name = some name → ∀ d ∈ checkName known p name, Q d
  others : ∀ d ∈ checkStages schemas (known.after p) rest, Q d

theorem ofFirst (h : ∀ d ∈ checkStages schemas known (p :: rest), Q d) :
    OfFirst schemas known p rest Q := by
  unfold checkStages at h
  cases hname : p.stage.name with
  | none =>
      rw [hname] at h
      simp only [List.forall_mem_append] at h
      obtain ⟨⟨hreads, hschemas⟩, hrest⟩ := h
      refine ⟨hreads, hschemas, fun hn => ?_, ?_⟩
      · rw [hname] at hn
        cases hn
      · rw [Known.after, hname]
        exact hrest
  | some name =>
      rw [hname] at h
      simp only [List.forall_mem_append] at h
      obtain ⟨⟨⟨hreads, hschemas⟩, hcheck⟩, hrest⟩ := h
      refine ⟨hreads, hschemas, fun hn => ?_, ?_⟩
      · rw [hname] at hn
        cases hn
        exact hcheck
      · rw [Known.after, hname]
        exact hrest

/-- Each name that a stage reads without its being bound is reported. -/
theorem mem_checkReads {name : String} (h : name ∈ p.stage.value.unbound known.available) :
    p.report (.unboundName name known.available) ∈ checkReads known p :=
  List.mem_map.mpr ⟨name, List.mem_eraseDups.mpr h, rfl⟩

/-- Each schema that a stage names and a registry lacks is reported. -/
theorem mem_checkSchemas {registered : List String} {name : String}
    (h : name ∈ p.stage.value.schemaNames) (hr : registered.contains name = false) :
    p.report (.unknownSchema name registered) ∈ checkSchemas (some registered) p := by
  refine List.mem_map.mpr ⟨name, List.mem_filter.mpr ⟨List.mem_eraseDups.mpr h, ?_⟩, rfl⟩
  rw [hr]
  rfl

/-- A name without an error is neither one of a request nor one of an earlier
stage. -/
theorem fresh_of_checkName {name : String}
    (h : ∀ d ∈ checkName known p name, d.severity ≠ .error) :
    name ∉ reservedNames ∧ known.seen.contains name = false := by
  unfold checkName at h
  split at h
  · exact absurd rfl (h _ List.mem_cons_self)
  · next hreserved =>
      split at h
      · exact absurd rfl (h _ List.mem_cons_self)
      · next hseen =>
          rw [List.contains_iff_mem] at hreserved
          exact ⟨hreserved, by rw [Fields.contains, hseen]; rfl⟩

/-- The names of stages that are known after one with a fresh name. -/
theorem contains_seen_add {name other : String} (hreserved : other ∉ reservedNames)
    (hseen : known.seen.contains other = false) :
    (known.add p other).seen.contains name = true ↔
      other = name ∨ known.seen.contains name = true := by
  have hfresh : ¬(reservedNames.contains other || known.seen.contains other) = true := by
    rw [Bool.or_eq_true, List.contains_iff_mem, hseen]
    rintro (h | h)
    · exact hreserved h
    · cases h
  unfold Known.add
  dsimp only
  rw [if_neg hfresh, Fields.contains_append, Bool.or_eq_true, or_comm]
  refine or_congr ?_ Iff.rfl
  rw [Fields.contains_iff_mem_names]
  exact ⟨fun h => (List.mem_singleton.mp h).symm, fun h => List.mem_singleton.mpr h.symm⟩

theorem mem_available_add {name other : String} :
    name ∈ (known.add p other).available ↔ name ∈ known.available ∨ name = other := by
  unfold Known.add
  dsimp only
  split
  · next h =>
      constructor
      · exact .inl
      · rintro (hn | rfl)
        · exact hn
        · exact List.contains_iff_mem.mp h
  · rw [List.mem_append, List.mem_singleton]

/-- The stages of a pipeline are numbered and otherwise left as they are. -/
theorem map_stage_number (location : String) (stages : Pipeline) :
    (Placed.number location stages).map Placed.stage = stages := by
  refine List.ext_getElem? fun i => ?_
  rw [Placed.number, List.getElem?_map, List.getElem?_mapIdx, Option.map_map]
  exact Option.map_id'

end Pipeline

end Conduit
