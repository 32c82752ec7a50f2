import GraphTransform.Proofs.Indexing

/-!
# A table is a list of slots

To whoever works with a table of correspondences it is a plain list of slots, each with a
correspondence or empty, in which every lookup reads the slots from the first on. `Operation` are
the operations on a table, with what they are given, and `Answer` what they tell; `Table.step`
performs one on a table, and `SlotList.step` on a list, in the simplest terms.

A table represents the list of its slots if its indexes are right (`Table.Represents`). Both then
give the same answer to every operation and represent the same list after it (`Represents.step`).
So from the empty table on no run of operations tells a table from a list (`answers_eq_slotList`).
-/

namespace GraphTransform.Correspondence

/-- An operation on a table. -/
inductive Operation where
  /-- Insert a correspondence. -/
  | insert (c : Correspondence)
  /-- Take the correspondence at a slot out. -/
  | remove (slot : Nat)
  /-- Change both indices at a slot. -/
  | setIndices (slot : Nat) (left right : Option Nat)
  /-- Remove all correspondences. -/
  | clear
  /-- Look at a slot. -/
  | get (slot : Nat)
  /-- Search for an identifier. -/
  | findId (id : String)
  /-- Search for an edge between two ends. -/
  | findEnds (source target : String)
  /-- List the live slots with what they hold. -/
  | list
  /-- List the live slots. -/
  | handles
  /-- Count the live slots. -/
  | count

/-- What an operation tells. -/
inductive Answer where
  /-- Nothing. -/
  | done
  /-- A slot, if there is one. -/
  | slot (slot : Option Nat)
  /-- What a slot holds. -/
  | entry (c : Option Correspondence)
  /-- Slots with what they hold. -/
  | entries (entries : List (Nat × Correspondence))
  /-- Slots. -/
  | slots (slots : List Nat)
  /-- A number of slots, and whether there are none. -/
  | count (n : Nat) (isEmpty : Bool)

/-- Perform operations one after the other. -/
def runOperations {σ : Type} (step : σ → Operation → Answer × σ) (s : σ) :
    List Operation → List Answer × σ
  | [] => ([], s)
  | op :: ops =>
    let (answer, s') := step s op
    let (answers, last) := runOperations step s' ops
    (answer :: answers, last)

/-- Perform an operation on a table. -/
def Table.step (t : Table) : Operation → Answer × Table
  | .insert c => (.slot t.nextSlot, t.insert c)
  | .remove slot => let (c, t') := t.remove slot; (.entry c, t')
  | .setIndices slot left right =>
    let t' := t.setIndices slot left right
    (.entry (t'.get? slot), t')
  | .clear => (.done, t.clear)
  | .get slot => (.entry (t.get? slot), t)
  | .findId id => (.slot (t.findId? id), t)
  | .findEnds source target => (.slot (t.findEnds? source target), t)
  | .list => (.entries t.toList, t)
  | .handles => (.slots t.handles, t)
  | .count => (.count t.size t.isEmpty, t)

/-- Perform operations on a table, one after the other. -/
def Table.run (t : Table) (ops : List Operation) : List Answer × Table :=
  runOperations Table.step t ops

/-! ### Lists of slots -/

/-- Slots by number, each with a correspondence or empty. -/
abbrev SlotList := List (Option Correspondence)

namespace SlotList

variable (m : SlotList)

/-- What a slot holds; beyond the last one there is nothing. -/
def get? (slot : Nat) : Option Correspondence := m[slot]?.join

/-- The slots that are not empty, in ascending order. -/
def live : List Nat := (List.range m.length).filter fun slot => (m.get? slot).isSome

/-- The least slot with a correspondence that passes a test. -/
def first? (p : Correspondence → Bool) : Option Nat := m.findIdx? (·.any p)

/-- Perform an operation on a list of slots. -/
def step : Operation → Answer × SlotList
  | .insert c => (.slot m.length, m ++ [some c])
  | .remove slot => (.entry (m.get? slot), m.set slot none)
  | .setIndices slot left right =>
    let changed := (m.get? slot).map ({ · with left, right })
    (.entry changed, m.set slot changed)
  | .clear => (.done, [])
  | .get slot => (.entry (m.get? slot), m)
  | .findId id => (.slot (m.first? (·.id = id)), m)
  | .findEnds source target => (.slot (m.first? (·.connects source target)), m)
  | .list => (.entries (m.live.filterMap fun slot => (m.get? slot).map (slot, ·)), m)
  | .handles => (.slots m.live, m)
  | .count => (.count m.live.length (m.live.length = 0), m)

/-- Perform operations on a list of slots, one after the other. -/
def run (m : SlotList) (ops : List Operation) : List Answer × SlotList :=
  runOperations SlotList.step m ops

variable {m}

/-- The slot found is the least one that passes the test. -/
theorem first?_eq_some_iff {p : Correspondence → Bool} {slot : Nat} :
    m.first? p = some slot ↔ (∃ c, m.get? slot = some c ∧ p c = true) ∧
      ∀ other < slot, ∀ c, m.get? other = some c → p c = false := by
  have hany (i : Nat) (hi : i < m.length) :
      m[i].any p = true ↔ ∃ c, m.get? i = some c ∧ p c = true := by
    rw [get?, List.getElem?_eq_getElem hi, Option.join_some, Option.any_eq_true]
  rw [first?, List.findIdx?_eq_some_iff_getElem]
  constructor
  · rintro ⟨hlt, hp, hmin⟩
    refine ⟨(hany slot hlt).mp hp, fun other hother c hc => ?_⟩
    by_contra hpc
    exact hmin other hother ((hany other (hother.trans hlt)).mpr ⟨c, hc, by simpa using hpc⟩)
  · rintro ⟨⟨c, hc, hp⟩, hmin⟩
    have hlt : slot < m.length := by
      by_contra hge
      rw [get?, List.getElem?_eq_none (Nat.le_of_not_lt hge)] at hc
      cases hc
    refine ⟨hlt, (hany slot hlt).mpr ⟨c, hc, hp⟩, fun other hother hpother => ?_⟩
    obtain ⟨c', hc', hp'⟩ := (hany other (hother.trans hlt)).mp hpother
    rw [hmin other hother c' hc'] at hp'
    cases hp'

/-- Nothing changes when a slot gets what it holds. -/
theorem set_get? (m : SlotList) (slot : Nat) : m.set slot (m.get? slot) = m := by
  refine List.ext_getElem? fun i => ?_
  rw [List.getElem?_set]
  split
  · next heq =>
    subst heq
    split
    · next hlt => rw [get?, List.getElem?_eq_getElem hlt, Option.join_some]
    · next hge => rw [List.getElem?_eq_none (Nat.le_of_not_lt hge)]
  · rfl

end SlotList

/-! ### What a table tells of its slots -/

namespace Table

/-- The table has these slots, and its indexes agree with them. -/
structure Represents (t : Table) (m : SlotList) : Prop where
  /-- The indexes agree with the slots. -/
  wellFormed : t.WellFormed
  /-- The slots. -/
  slots : t.slots.toList = m

theorem represents_empty : empty.Represents [] := ⟨wellFormed_empty, rfl⟩

theorem mem_toList_iff {t : Table} {slot : Nat} {c : Correspondence} :
    (slot, c) ∈ t.toList ↔ t.get? slot = some c := by
  simp only [toList, List.mem_filterMap, Prod.exists, List.mem_zipIdx_iff_getElem?,
    Option.map_eq_some_iff, Prod.mk.injEq, Array.getElem?_toList, get?, Option.join_eq_some_iff]
  constructor
  · rintro ⟨entry, i, hentry, c', rfl, rfl, rfl⟩
    exact hentry
  · intro h
    exact ⟨some c, slot, h, c, rfl, rfl, rfl⟩

/-- The live slots with what they hold, from the live slots alone. -/
theorem toList_eq (t : Table) :
    t.toList = t.handles.filterMap fun slot => (t.get? slot).map (slot, ·) := by
  have hentry : ∀ p ∈ t.toList, (t.get? p.1).map (p.1, ·) = some p := by
    rintro ⟨slot, c⟩ hp
    rw [mem_toList_iff.mp hp]
    rfl
  rw [handles, List.filterMap_map]
  exact (List.filterMap_some.symm.trans (List.filterMap_congr hentry).symm)

namespace Represents

variable {t : Table} {m : SlotList} (h : t.Represents m)

include h

theorem nextSlot : t.nextSlot = m.length := by
  rw [Table.nextSlot, ← Array.length_toList, h.slots]

theorem get? (slot : Nat) : t.get? slot = m.get? slot := by
  rw [Table.get?, ← Array.getElem?_toList, h.slots, SlotList.get?]

theorem handles : t.handles = m.live := by
  rw [handles_eq, slotsWhere, h.nextSlot, SlotList.live]
  refine List.filter_congr fun slot _ => ?_
  rw [h.get?]
  cases m.get? slot <;> rfl

/-- The first slot of a view is the least one in the list that passes the test. -/
theorem head?_slotsWhere (p : Correspondence → Bool) : (t.slotsWhere p).head? = m.first? p := by
  refine Option.ext fun slot => ?_
  rw [head?_slotsWhere_eq_some_iff, SlotList.first?_eq_some_iff]
  simp only [h.get?]

theorem findId? (id : String) : t.findId? id = m.first? (·.id = id) := by
  rw [Table.findId?, h.wellFormed.byId, h.head?_slotsWhere]

theorem findEnds? (source target : String) :
    t.findEnds? source target = m.first? (·.connects source target) := by
  have hconnects : (fun c : Correspondence => decide (c.ends? = some (source, target))) =
      (·.connects source target) :=
    funext fun c => Bool.eq_iff_iff.mpr <| by rw [decide_eq_true_eq, connects_iff]
  rw [Table.findEnds?, h.wellFormed.byEnds, h.head?_slotsWhere, hconnects]

theorem toList : t.toList = m.live.filterMap fun slot => (m.get? slot).map (slot, ·) := by
  rw [toList_eq, h.handles]
  simp only [h.get?]

theorem size : t.size = m.live.length := by
  rw [Table.size, h.wellFormed.live, ← handles_eq, h.handles]

theorem insert (c : Correspondence) : (t.insert c).Represents (m ++ [some c]) :=
  ⟨h.wellFormed.insert c, by rw [← h.slots]; simp [Table.insert]⟩

theorem erase (slot : Nat) : (t.erase slot).Represents (m.set slot none) := by
  refine ⟨h.wellFormed.erase slot, ?_⟩
  have hsame := m.set_get? slot
  rw [Table.erase, h.get?]
  cases hc : m.get? slot with
  | none => rw [h.slots, ← hc, hsame]
  | some c => rw [Array.toList_setIfInBounds, h.slots]

theorem setIndices (slot : Nat) (left right : Option Nat) :
    (t.setIndices slot left right).Represents
      (m.set slot ((m.get? slot).map ({ · with left, right }))) := by
  refine ⟨h.wellFormed.setIndices slot left right, ?_⟩
  have hsame := m.set_get? slot
  rw [Table.setIndices, h.get?]
  cases hc : m.get? slot with
  | none => rw [Option.map_none, h.slots, ← hc, hsame]
  | some c => rw [Option.map_some, Array.toList_setIfInBounds, h.slots]

/-- **An operation on a table gives the same answer as on the list of its slots**, and leaves a
table that represents the list that it leaves. -/
theorem step (op : Operation) :
    (t.step op).1 = (m.step op).1 ∧ (t.step op).2.Represents (m.step op).2 := by
  cases op with
  | insert c => exact ⟨congrArg (Answer.slot ∘ some) h.nextSlot, h.insert c⟩
  | remove slot => exact ⟨congrArg Answer.entry (h.get? slot), h.erase slot⟩
  | setIndices slot left right =>
    refine ⟨congrArg Answer.entry ?_, h.setIndices slot left right⟩
    rw [get?_setIndices, if_pos rfl, h.get?]
  | clear =>
    refine ⟨rfl, ?_⟩
    rw [Table.step, SlotList.step, clear_eq]
    exact represents_empty
  | get slot => exact ⟨congrArg Answer.entry (h.get? slot), h⟩
  | findId id => exact ⟨congrArg Answer.slot (h.findId? id), h⟩
  | findEnds source target => exact ⟨congrArg Answer.slot (h.findEnds? source target), h⟩
  | list => exact ⟨congrArg Answer.entries h.toList, h⟩
  | handles => exact ⟨congrArg Answer.slots h.handles, h⟩
  | count =>
    refine ⟨?_, h⟩
    rw [Table.step, SlotList.step, isEmpty, h.size]

end Represents

/-- A run of operations keeps this. -/
theorem Represents.run {t : Table} {m : SlotList} (h : t.Represents m) (ops : List Operation) :
    (t.run ops).1 = (m.run ops).1 ∧ (t.run ops).2.Represents (m.run ops).2 := by
  induction ops generalizing t m with
  | nil => exact ⟨rfl, h⟩
  | cons op ops ih =>
    obtain ⟨hanswer, hstep⟩ := h.step op
    obtain ⟨hanswers, hlast⟩ := ih hstep
    exact ⟨congrArg₂ List.cons hanswer hanswers, hlast⟩

end Table

/-- **From the empty table on, a table cannot be told from a list of slots**: every run of
operations has the same answers. In particular nothing at all changes in the table when a slot is
removed that is not live. -/
theorem answers_eq_slotList (ops : List Operation) :
    (Table.empty.run ops).1 = (SlotList.run [] ops).1 ∧
      ∀ slot, (SlotList.run [] ops).2.get? slot = none →
        (Table.empty.run ops).2.remove slot = (none, (Table.empty.run ops).2) := by
  obtain ⟨hanswers, hlast⟩ := Table.represents_empty.run ops
  refine ⟨hanswers, fun slot hdead => ?_⟩
  rw [← hlast.get?] at hdead
  rw [Table.remove, Table.erase, hdead]

/-- The first slot with an identifier is emptied and the second takes over; the first is then
dead. -/
theorem answers_shadowed :
    let ops : List Operation :=
      [.insert { id := "a" }, .insert { id := "a" }, .remove 0, .findId "a"]
    (SlotList.run [] ops).2.get? 0 = none ∧
      (Table.empty.run ops).1 =
        [.slot (some 0), .slot (some 1), .entry (some { id := "a" }), .slot (some 1)] ∧
      (Table.empty.run ops).2.remove 0 = (none, (Table.empty.run ops).2) :=
  ⟨rfl, (answers_eq_slotList _).1, (answers_eq_slotList _).2 0 rfl⟩

end GraphTransform.Correspondence
