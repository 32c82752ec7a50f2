import GraphTransform.Traced
import GraphTransform.Variable
import Mathlib.Data.List.Nodup

/-!
# The table of the variables

A table holds declarations (`Variables.Holds`) if it lists them in order, no name twice, and its
index has each name at its position. Declaring a variable keeps this, so a lookup finds exactly the
declared types (`Holds.type?_eq_some_iff`).
-/

namespace GraphTransform

theorem getElem?_append_singleton_eq_some_iff {α : Type} {xs : List α} {y x : α} {i : Nat} :
    (xs ++ [y])[i]? = some x ↔ xs[i]? = some x ∨ i = xs.length ∧ y = x := by
  rw [List.getElem?_append]
  split
  · simp; omega
  · rw [List.getElem?_singleton]
    have : xs[i]? = none := List.getElem?_eq_none (by omega)
    by_cases hi : i = xs.length
    · simp [hi]
    · rw [if_neg (by omega)]
      simp [this, hi]

namespace Variables

/-- The table holds the declarations, in order. -/
structure Holds (vs : Variables) (ds : List Variable) : Prop where
  /-- The declarations. -/
  decls : vs.decls.toList = ds
  /-- No name is declared twice. -/
  nodup : (ds.map (·.name)).Nodup
  /-- The index has each name at its position. -/
  index : ∀ (x : String) (i : Nat), vs.index[x]? = some i ↔ (ds.map (·.name))[i]? = some x

theorem holds_empty : empty.Holds [] where
  decls := rfl
  nodup := List.nodup_nil
  index x i := by simp [empty]

namespace Holds

variable {vs : Variables} {ds : List Variable} (h : vs.Holds ds)

include h

theorem contains_iff {x : String} : vs.index.contains x = true ↔ x ∈ ds.map (·.name) := by
  rw [Std.TreeMap.contains_eq_isSome_getElem?, Option.isSome_iff_exists, List.mem_iff_getElem?]
  exact exists_congr fun i => h.index x i

/-- A variable is declared exactly if its name is not taken, and then the table holds it as well. -/
theorem declare_eq_ok_iff {v : Variable} {vs' : Variables} : vs.declare v = .ok vs' ↔
    v.name ∉ ds.map (·.name) ∧ vs' = ⟨vs.decls.push v, vs.index.insert v.name vs.decls.size⟩ := by
  rw [declare]
  by_cases hx : v.name ∈ ds.map (·.name)
  · rw [if_pos (h.contains_iff.mpr hx)]
    simp [hx]
  · rw [if_neg (mt h.contains_iff.mp hx)]
    simp [hx, eq_comm]

theorem declare {v : Variable} {vs' : Variables} (hv : vs.declare v = .ok vs') :
    vs'.Holds (ds ++ [v]) := by
  obtain ⟨hfresh, rfl⟩ := h.declare_eq_ok_iff.mp hv
  have hsize : vs.decls.size = (ds.map (·.name)).length := by
    rw [← Array.length_toList, h.decls, List.length_map]
  refine ⟨by simp [h.decls], ?_, fun x i => ?_⟩
  · rw [List.map_append, List.map_singleton, List.nodup_append]
    refine ⟨h.nodup, List.nodup_singleton _, fun x hx y hy => ?_⟩
    obtain rfl := List.mem_singleton.mp hy
    rintro rfl
    exact hfresh hx
  · rw [List.map_append, List.map_singleton, Std.TreeMap.getElem?_insert]
    simp only [Std.LawfulEqCmp.compare_eq_iff_eq, getElem?_append_singleton_eq_some_iff, ← hsize]
    by_cases hx : v.name = x
    · have hnone : (ds.map (·.name))[i]? ≠ some x := fun hi => hfresh (hx ▸ List.mem_of_getElem? hi)
      rw [if_pos hx, Option.some.injEq]
      simp only [hnone, hx, false_or, and_true]
      exact eq_comm
    · simp [hx, h.index]

/-- A declaration fails if its name is taken. -/
theorem declare_eq_error {v : Variable} (hv : v.name ∈ ds.map (·.name)) :
    vs.declare v = .error (.duplicateVariable v.name) := by
  rw [Variables.declare, if_pos (h.contains_iff.mpr hv)]

theorem exists_declare {v : Variable} (hv : v.name ∉ ds.map (·.name)) :
    ∃ vs', vs.declare v = .ok vs' :=
  ⟨_, h.declare_eq_ok_iff.mpr ⟨hv, rfl⟩⟩

theorem count : vs.count = ds.length := by
  rw [Variables.count, ← Array.length_toList, h.decls]

/-- The index has no positions beyond the declarations. -/
theorem lt_size_of_index {x : String} {i : Nat} (hi : vs.index[x]? = some i) :
    i < vs.decls.size := by
  have hlt : i < (ds.map (·.name)).length := (List.getElem?_eq_some_iff.mp ((h.index x i).mp hi)).1
  rwa [List.length_map, ← h.decls, Array.length_toList] at hlt

/-- The type of a variable is the declared one. -/
theorem type?_eq_some_iff {x : String} {t : ValueType} :
    vs.type? x = some t ↔ (⟨x, t⟩ : Variable) ∈ ds := by
  have hdecls (i : Nat) : vs.decls[i]? = ds[i]? := by rw [← Array.getElem?_toList, h.decls]
  rw [type?, Option.bind_eq_some_iff, List.mem_iff_getElem?]
  simp only [h.index, hdecls, List.getElem?_map]
  refine exists_congr fun i => ?_
  cases ds[i]? with
  | none => simp
  | some v =>
    obtain ⟨name, type⟩ := v
    simp

end Holds

/-- Tables that hold the same declarations find the same types. -/
theorem Holds.type?_congr {vs vs' : Variables} {ds : List Variable} (h : vs.Holds ds)
    (h' : vs'.Holds ds) (x : String) : vs'.type? x = vs.type? x :=
  Option.ext fun _ => h'.type?_eq_some_iff.trans h.type?_eq_some_iff.symm

/-- Declaring variables in turn leaves a table that holds them. -/
theorem Holds.declareAll {vs vs' : Variables} {ds ds' : List Variable} (h : vs.Holds ds)
    (hok : vs.declareAll ds' = .ok vs') : vs'.Holds (ds ++ ds') := by
  induction ds' generalizing vs ds with
  | nil =>
    obtain rfl := Except.ok.inj hok
    simpa using h
  | cons v rest ih =>
    rw [Variables.declareAll, List.foldlM_cons, bind_eq_ok_iff] at hok
    obtain ⟨vs₁, hv, hrest⟩ := hok
    simpa using ih (h.declare hv) hrest

end Variables

end GraphTransform
