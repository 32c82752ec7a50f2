import GraphTransform.Correspondence.Table
import Mathlib.Data.List.Induction
import Mathlib.Data.List.Sort

/-!
# The indexes of a table

A table of correspondences keeps two indexes and a counter beside its slots. Here they are
redundant: what a table means is given by its slots alone. The view of a table is, for a test on
correspondences, the ascending list of the live slots that pass it (`slotsWhere`), and
`WellFormed` says that each index is such a list.

An insertion appends to the view, an erasure filters it, and a change of indices leaves it alone
(for tests that do not read the indices). From these three equations each operation keeps the
table well formed, and every lookup finds the first slot of a view.
-/

namespace GraphTransform.Correspondence

instance : Std.TransCmp endsOrder := inferInstanceAs <| Std.TransCmp (compareLex _ _)

instance : Std.LawfulEqCmp endsOrder where
  eq_of_compare {a b} h := by
    simp only [compareLex_eq_eq, compareOn] at h
    exact Prod.ext (Std.LawfulEqOrd.eq_of_compare h.1) (Std.LawfulEqOrd.eq_of_compare h.2)

namespace Table

/-- The live slots whose correspondence passes a test, in ascending order. -/
def slotsWhere (t : Table) (p : Correspondence → Bool) : List Nat :=
  (List.range t.nextSlot).filter fun slot => (t.get? slot).any p

/-- The indexes and the counter say what the slots say. -/
structure WellFormed (t : Table) : Prop where
  /-- The first live slot with each identifier. -/
  byId : ∀ id, t.byId[id]? = (t.slotsWhere (·.id = id)).head?
  /-- The live slots with each pair of ends. -/
  byEnds : ∀ ends, t.byEnds.getD ends [] = t.slotsWhere (·.ends? = some ends)
  /-- The number of live slots. -/
  live : t.live = (t.slotsWhere fun _ => true).length

/-! ### The view -/

theorem lt_nextSlot_of_get? {t : Table} {slot : Nat} {c : Correspondence}
    (h : t.get? slot = some c) : slot < t.nextSlot := by
  by_contra hlt
  rw [get?, nextSlot, Array.getElem?_eq_none (Nat.le_of_not_lt hlt)] at *
  cases h

theorem mem_slotsWhere {t : Table} {p : Correspondence → Bool} {slot : Nat} :
    slot ∈ t.slotsWhere p ↔ ∃ c, t.get? slot = some c ∧ p c = true := by
  rw [slotsWhere, List.mem_filter, List.mem_range, Option.any_eq_true]
  constructor
  · rintro ⟨-, c, hc, hp⟩
    exact ⟨c, hc, hp⟩
  · rintro ⟨c, hc, hp⟩
    exact ⟨lt_nextSlot_of_get? hc, c, hc, hp⟩

theorem sortedLT_slotsWhere (t : Table) (p : Correspondence → Bool) :
    (t.slotsWhere p).Pairwise (· < ·) :=
  List.pairwise_lt_range.filter _

theorem nodup_slotsWhere (t : Table) (p : Correspondence → Bool) : (t.slotsWhere p).Nodup :=
  List.nodup_range.filter _

/-- The first slot of a view is the least live slot that passes the test. -/
theorem head?_slotsWhere_eq_some_iff {t : Table} {p : Correspondence → Bool} {slot : Nat} :
    (t.slotsWhere p).head? = some slot ↔
      (∃ c, t.get? slot = some c ∧ p c = true) ∧
        ∀ other < slot, ∀ c, t.get? other = some c → p c = false := by
  rw [slotsWhere, List.head?_filter, List.find?_range_eq_some, List.mem_range, Option.any_eq_true]
  constructor
  · rintro ⟨⟨c, hc, hp⟩, -, hmin⟩
    refine ⟨⟨c, hc, hp⟩, fun other hlt c' hc' => ?_⟩
    simpa [hc'] using hmin other hlt
  · rintro ⟨⟨c, hc, hp⟩, hmin⟩
    refine ⟨⟨c, hc, hp⟩, lt_nextSlot_of_get? hc, fun other hlt => ?_⟩
    cases hother : t.get? other with
    | none => rfl
    | some c' => simp [hmin other hlt c' hother]

theorem slotsWhere_eq_nil_iff {t : Table} {p : Correspondence → Bool} :
    t.slotsWhere p = [] ↔ ∀ slot c, t.get? slot = some c → p c = false := by
  rw [List.eq_nil_iff_forall_not_mem]
  simp only [mem_slotsWhere, not_exists, not_and, Bool.not_eq_true]

/-- The live slots are those of the view with the test that always passes. -/
theorem handles_eq (t : Table) : t.handles = t.slotsWhere fun _ => true := by
  rw [handles, toList, slotsWhere, nextSlot, ← Array.length_toList]
  simp only [get?, ← Array.getElem?_toList]
  generalize t.slots.toList = entries
  induction entries using List.reverseRecOn with
  | nil => rfl
  | append_singleton entries entry ih =>
    have hold :
        ((List.range entries.length).filter fun slot =>
            (entries ++ [entry])[slot]?.join.any fun _ => true) =
          (List.range entries.length).filter fun slot => entries[slot]?.join.any fun _ => true := by
      refine List.filter_congr fun slot hslot => ?_
      rw [List.getElem?_append_left (List.mem_range.mp hslot)]
    rw [List.zipIdx_append, List.filterMap_append, List.map_append, ih, List.length_append,
      List.length_singleton, List.range_succ, List.filter_append, hold]
    cases entry <;> simp

/-! ### What the operations do to the view -/

theorem nextSlot_insert (t : Table) (c : Correspondence) :
    (t.insert c).nextSlot = t.nextSlot + 1 := by
  simp [nextSlot, insert]

theorem nextSlot_setIndices (t : Table) (slot : Nat) (left right : Option Nat) :
    (t.setIndices slot left right).nextSlot = t.nextSlot := by
  unfold setIndices nextSlot
  split <;> simp

theorem nextSlot_erase (t : Table) (slot : Nat) : (t.erase slot).nextSlot = t.nextSlot := by
  unfold erase nextSlot
  split <;> simp

theorem slotsWhere_insert (t : Table) (c : Correspondence) (p : Correspondence → Bool) :
    (t.insert c).slotsWhere p = t.slotsWhere p ++ if p c then [t.nextSlot] else [] := by
  have hold : (List.range t.nextSlot).filter (fun slot => ((t.insert c).get? slot).any p) =
      t.slotsWhere p := by
    refine List.filter_congr fun slot hslot => ?_
    rw [get?_insert, if_neg (Nat.ne_of_lt (List.mem_range.mp hslot))]
  rw [slotsWhere, nextSlot_insert, List.range_succ, List.filter_append, hold]
  congr 1
  cases hp : p c <;> simp [get?_insert, hp]

theorem slotsWhere_erase (t : Table) (slot : Nat) (p : Correspondence → Bool) :
    (t.erase slot).slotsWhere p = (t.slotsWhere p).filter (· ≠ slot) := by
  rw [slotsWhere, slotsWhere, nextSlot_erase, List.filter_filter]
  refine List.filter_congr fun other _ => ?_
  rw [get?_erase]
  by_cases h : other = slot <;> simp [h]

/-- A test that does not read the indices sees no change of them. -/
theorem slotsWhere_setIndices (t : Table) (slot : Nat) (left right : Option Nat)
    {p : Correspondence → Bool} (hp : ∀ c : Correspondence, p { c with left, right } = p c) :
    (t.setIndices slot left right).slotsWhere p = t.slotsWhere p := by
  rw [slotsWhere, slotsWhere, nextSlot_setIndices]
  refine List.filter_congr fun other _ => ?_
  rw [get?_setIndices]
  by_cases h : other = slot
  · subst h
    cases hc : t.get? other <;> simp [hp]
  · rw [if_neg h]

/-! ### The operations keep a table well formed -/

theorem wellFormed_empty : WellFormed empty where
  byId _ := rfl
  byEnds _ := rfl
  live := rfl

/-- The index by identifiers knows the identifiers with a live slot. -/
theorem WellFormed.mem_byId {t : Table} (h : t.WellFormed) (id : String) :
    id ∈ t.byId ↔ t.slotsWhere (·.id = id) ≠ [] := by
  rw [← Std.TreeMap.isSome_getElem?_iff_mem, h.byId, List.isSome_head?, ne_eq]

/-- An identifier that has a live slot keeps it, and any other gets the new slot. -/
theorem byId_insert {t : Table} (h : t.WellFormed) (c : Correspondence) (id : String) :
    (t.insert c).byId[id]? = ((t.insert c).slotsWhere (·.id = id)).head? := by
  rw [slotsWhere_insert, insert, Std.TreeMap.getElem?_insertIfNew, h.byId id]
  simp only [Std.LawfulEqCmp.compare_eq_iff_eq, h.mem_byId, not_not]
  by_cases hid : c.id = id
  · subst hid
    cases hs : t.slotsWhere (·.id = c.id) <;> simp
  · simp [hid]

theorem byEnds_insert {t : Table} (h : t.WellFormed) (c : Correspondence) (ends : String × String) :
    (t.insert c).byEnds.getD ends [] = (t.insert c).slotsWhere (·.ends? = some ends) := by
  rw [slotsWhere_insert, ← h.byEnds, insert]
  cases hc : c.ends? with
  | none => simp
  | some other =>
    simp only [Std.TreeMap.getD_insert, Std.LawfulEqCmp.compare_eq_iff_eq]
    by_cases he : other = ends
    · simp [he]
    · simp [he]

theorem WellFormed.insert {t : Table} (h : t.WellFormed) (c : Correspondence) :
    (t.insert c).WellFormed where
  byId := byId_insert h c
  byEnds := byEnds_insert h c
  live := by rw [slotsWhere_insert, if_pos rfl, List.length_append, ← h.live]; rfl

theorem WellFormed.setIndices {t : Table} (h : t.WellFormed) (slot : Nat)
    (left right : Option Nat) : (t.setIndices slot left right).WellFormed := by
  have hfields : (t.setIndices slot left right).byId = t.byId ∧
      (t.setIndices slot left right).byEnds = t.byEnds ∧
      (t.setIndices slot left right).live = t.live := by
    unfold Table.setIndices
    split <;> exact ⟨rfl, rfl, rfl⟩
  obtain ⟨hid, hends, hlive⟩ := hfields
  refine ⟨fun id => ?_, fun ends => ?_, ?_⟩
  · rw [hid, slotsWhere_setIndices t slot left right fun c => rfl, h.byId]
  · rw [hends, slotsWhere_setIndices t slot left right fun c => rfl, h.byEnds]
  · rw [hlive, slotsWhere_setIndices t slot left right fun c => rfl, h.live]

/-- The search for the slot that takes over is one through a view. -/
theorem nextWithId?_eq (t : Table) (id : String) (start : Nat) :
    t.nextWithId? id start = ((t.slotsWhere (·.id = id)).filter (start ≤ ·)).head? := by
  rw [slotsWhere, List.filter_filter, List.head?_filter, nextWithId?]
  refine Option.ext fun slot => ?_
  simp only [List.find?_range'_eq_some, List.find?_range_eq_some, List.mem_range'_1, List.mem_range,
    Bool.and_eq_true, decide_eq_true_eq, Bool.not_and, Bool.or_eq_true, Bool.not_eq_true',
    decide_eq_false_iff_not]
  constructor
  · rintro ⟨hany, ⟨hstart, hlt⟩, hmin⟩
    refine ⟨⟨hstart, hany⟩, by omega, fun other hother => ?_⟩
    by_cases hle : start ≤ other
    · exact Or.inr (hmin other hle hother)
    · exact Or.inl hle
  · rintro ⟨⟨hstart, hany⟩, hlt, hmin⟩
    refine ⟨hany, ⟨hstart, by omega⟩, fun other hle hother => ?_⟩
    exact (hmin other hother).resolve_left (not_not.mpr hle)

/-- A slot that does not have the property is not among those that have it. -/
theorem filter_ne_slotsWhere {t : Table} {slot : Nat} {c : Correspondence}
    (hc : t.get? slot = some c) {p : Correspondence → Bool} (hp : p c = false) :
    (t.slotsWhere p).filter (· ≠ slot) = t.slotsWhere p := by
  rw [List.filter_eq_self]
  intro other hmem
  obtain ⟨c', hc', hp'⟩ := mem_slotsWhere.mp hmem
  rw [decide_eq_true_eq]
  rintro rfl
  rw [hc, Option.some.injEq] at hc'
  rw [← hc', hp] at hp'
  cases hp'

/-- A test that tells the first of increasing slots from the others drops it. -/
theorem filter_cons_eq_rest {first : Nat} {rest : List Nat} (hrest : ∀ other ∈ rest, first < other)
    {q : Nat → Bool} (hfirst : q first = false) (hlater : ∀ other, first < other → q other = true) :
    (first :: rest).filter q = rest := by
  rw [List.filter_cons_of_neg (by simp [hfirst]), List.filter_eq_self]
  exact fun other hother => hlater other (hrest other hother)

/-- When the first slot with an identifier is emptied, the next one takes over; the first slots of
all other identifiers stay. -/
theorem byId_erase {t : Table} (h : t.WellFormed) {slot : Nat} {c : Correspondence}
    (hc : t.get? slot = some c) (id : String) :
    (t.byIdWithout c.id slot)[id]? = ((t.erase slot).slotsWhere (·.id = id)).head? := by
  rw [slotsWhere_erase]
  by_cases hid : c.id = id
  · subst hid
    have hsorted := t.sortedLT_slotsWhere (·.id = c.id)
    rw [byIdWithout, nextWithId?_eq, h.byId]
    cases hs : t.slotsWhere (·.id = c.id) with
    | nil =>
      have := slotsWhere_eq_nil_iff.mp hs slot c hc
      simp at this
    | cons first rest =>
      rw [hs, List.pairwise_cons] at hsorted
      by_cases hfirst : first = slot
      · subst hfirst
        have hrest : (first :: rest).filter (first + 1 ≤ ·) = rest :=
          filter_cons_eq_rest hsorted.1 (by simp) fun other hlt =>
            by simpa using Nat.succ_le_of_lt hlt
        have hne : (first :: rest).filter (· ≠ first) = rest :=
          filter_cons_eq_rest hsorted.1 (by simp) fun other hlt => by simpa using hlt.ne'
        rw [List.head?_cons, if_pos rfl, hrest, hne]
        cases rest <;> simp
      · rw [List.head?_cons, if_neg (by simpa using hfirst), h.byId, hs,
          List.filter_cons_of_pos (by simpa using hfirst)]
        rfl
  · have hother : (t.byIdWithout c.id slot)[id]? = t.byId[id]? := by
      unfold byIdWithout
      split
      · split <;> simp [Std.TreeMap.getElem?_insert, Std.TreeMap.getElem?_erase, hid]
      · rfl
    rw [hother, h.byId, filter_ne_slotsWhere hc (by simpa using hid)]

theorem byEnds_erase {t : Table} (h : t.WellFormed) {slot : Nat} {c : Correspondence}
    (hc : t.get? slot = some c) (ends : String × String) :
    (t.byEndsWithout c.ends? slot).getD ends [] =
      (t.erase slot).slotsWhere (·.ends? = some ends) := by
  rw [slotsWhere_erase, ← h.byEnds]
  by_cases he : c.ends? = some ends
  · rw [he, byEndsWithout]
    split
    · rename_i hnil
      rw [Std.TreeMap.getD_erase_self, hnil]
    · rw [Std.TreeMap.getD_insert_self]
  · have hother : (t.byEndsWithout c.ends? slot).getD ends [] = t.byEnds.getD ends [] := by
      unfold byEndsWithout
      split
      · rfl
      · rename_i other hother
        rw [hother, Option.some.injEq] at he
        split <;> simp [Std.TreeMap.getD_insert, Std.TreeMap.getD_erase, he]
    rw [hother, h.byEnds, filter_ne_slotsWhere hc (by simpa using he)]

theorem WellFormed.erase {t : Table} (h : t.WellFormed) (slot : Nat) :
    (t.erase slot).WellFormed := by
  cases hc : t.get? slot with
  | none =>
    have : t.erase slot = t := by simp [Table.erase, hc]
    rwa [this]
  | some c =>
    refine ⟨fun id => ?_, fun ends => ?_, ?_⟩
    · rw [← byId_erase h hc]
      simp [Table.erase, hc]
    · rw [← byEnds_erase h hc]
      simp [Table.erase, hc]
    · have hmem : slot ∈ t.slotsWhere fun _ => true := mem_slotsWhere.mpr ⟨c, hc, rfl⟩
      have hlive : (t.erase slot).live = t.live - 1 := by simp [Table.erase, hc]
      have hfilter := (t.nodup_slotsWhere fun _ => true).erase_eq_filter slot
      rw [slotsWhere_erase, hlive, h.live, ← List.length_erase_of_mem hmem, hfilter]
      exact congrArg List.length (List.filter_congr fun other _ => by grind)

/-! ### Lookups -/

theorem WellFormed.findId?_eq_some_iff {t : Table} (h : t.WellFormed) {id : String} {slot : Nat} :
    t.findId? id = some slot ↔
      (∃ c, t.get? slot = some c ∧ c.id = id) ∧
      ∀ other < slot, ∀ c, t.get? other = some c → c.id ≠ id := by
  rw [findId?, h.byId, head?_slotsWhere_eq_some_iff]
  simp

theorem WellFormed.findEnds?_eq_some_iff {t : Table} (h : t.WellFormed) {source target : String}
    {slot : Nat} :
    t.findEnds? source target = some slot ↔
      (∃ c, t.get? slot = some c ∧ c.ends? = some (source, target)) ∧
      ∀ other < slot, ∀ c, t.get? other = some c → c.ends? ≠ some (source, target) := by
  rw [findEnds?, h.byEnds, head?_slotsWhere_eq_some_iff]
  simp

/-! ### Tables from which nothing was erased -/

/-- The table holds these correspondences, the first at slot `0`, and no slot was emptied. -/
structure Holds (t : Table) (cs : List Correspondence) : Prop where
  /-- The indexes agree with the slots. -/
  wellFormed : t.WellFormed
  /-- The slots are full. -/
  slots : t.slots.toList = cs.map some

theorem holds_empty : Holds empty [] := ⟨wellFormed_empty, rfl⟩

theorem Holds.get? {t : Table} {cs : List Correspondence} (h : t.Holds cs) (slot : Nat) :
    t.get? slot = cs[slot]? := by
  rw [Table.get?, ← Array.getElem?_toList, h.slots, List.getElem?_map]
  cases cs[slot]? <;> rfl

theorem Holds.insert {t : Table} {cs : List Correspondence} (h : t.Holds cs) (c : Correspondence) :
    (t.insert c).Holds (cs ++ [c]) :=
  ⟨h.wellFormed.insert c, by simp [Table.insert, h.slots]⟩

/-- Insertions one after the other append a list. -/
theorem Holds.foldl_insert {t : Table} {cs : List Correspondence} (h : t.Holds cs)
    (more : List Correspondence) : (more.foldl Table.insert t).Holds (cs ++ more) := by
  induction more generalizing t cs with
  | nil => simpa using h
  | cons c more ih => simpa using ih (h.insert c)

theorem Holds.setIndices {t : Table} {cs : List Correspondence} (h : t.Holds cs) {slot : Nat}
    {c : Correspondence} (hc : cs[slot]? = some c) (left right : Option Nat) :
    (t.setIndices slot left right).Holds (cs.set slot { c with left, right }) := by
  refine ⟨h.wellFormed.setIndices slot left right, ?_⟩
  rw [Table.setIndices, h.get?, hc]
  simp [h.slots, List.map_set]

theorem Holds.findId? {t : Table} {cs : List Correspondence} (h : t.Holds cs) (id : String) :
    t.findId? id = cs.findIdx? (·.id = id) := by
  refine Option.ext fun slot => ?_
  rw [h.wellFormed.findId?_eq_some_iff, List.findIdx?_eq_some_iff_getElem]
  simp only [h.get?, decide_eq_true_eq]
  constructor
  · rintro ⟨⟨c, hc, hid⟩, hmin⟩
    obtain ⟨hlt, rfl⟩ := List.getElem?_eq_some_iff.mp hc
    exact ⟨hlt, hid, fun other hother => hmin other hother _ (List.getElem?_eq_getElem _)⟩
  · rintro ⟨hlt, hid, hmin⟩
    refine ⟨⟨_, List.getElem?_eq_getElem hlt, hid⟩, fun other hother c hc => ?_⟩
    obtain ⟨_, rfl⟩ := List.getElem?_eq_some_iff.mp hc
    exact hmin other hother

theorem Holds.lookup? {t : Table} {cs : List Correspondence} (h : t.Holds cs) (id : String) :
    t.lookup? id = cs.find? (·.id = id) := by
  rw [Table.lookup?, h.findId?, List.find?_eq_bind_findIdx?_getElem?]
  exact congrArg _ (funext h.get?)

theorem Holds.map_toList {t : Table} {cs : List Correspondence} (h : t.Holds cs) :
    t.toList.map (·.2) = cs := by
  rw [Table.toList, h.slots, List.zipIdx_map, List.filterMap_map, List.map_filterMap]
  simp

end Table

end GraphTransform.Correspondence
