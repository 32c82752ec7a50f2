import Std.Data.TreeMap
import GraphTransform.Correspondence

/-!
# Tables of correspondences

A table has numbered slots. Each correspondence that is inserted gets the next slot, and removal
empties its slot, which is not used again; so a slot number stays a valid handle until its
correspondence is removed. The slots that are not empty are live.

Two indexes answer lookups: for every identifier the first live slot with it, and for every pair of
ends the live slots with them. When the first slot with an identifier is emptied, the next one
takes over.
-/

namespace GraphTransform.Correspondence

/-- The order of pairs of ends: by the source, and then by the target. -/
abbrev endsOrder : String × String → String × String → Ordering :=
  compareLex (compareOn Prod.fst) (compareOn Prod.snd)

/-- A table of correspondences. -/
structure Table where
  /-- The slots by number; an emptied one holds nothing. -/
  slots : Array (Option Correspondence) := #[]
  /-- The first live slot with each identifier. -/
  byId : Std.TreeMap String Nat := ∅
  /-- The live slots with each pair of ends, in ascending order. -/
  byEnds : Std.TreeMap (String × String) (List Nat) endsOrder := ∅
  /-- The number of live slots. -/
  live : Nat := 0

namespace Table

/-- The table without slots. -/
def empty : Table := {}

instance : Inhabited Table := ⟨empty⟩

/-- The slot that the next insertion fills. -/
def nextSlot (t : Table) : Nat := t.slots.size

/-- Insert a correspondence at the next slot. -/
def insert (t : Table) (c : Correspondence) : Table where
  slots := t.slots.push (some c)
  byId := t.byId.insertIfNew c.id t.nextSlot
  byEnds :=
    match c.ends? with
    | some ends => t.byEnds.insert ends (t.byEnds.getD ends [] ++ [t.nextSlot])
    | none => t.byEnds
  live := t.live + 1

/-- The correspondence at a slot, if the slot is live. -/
def get? (t : Table) (slot : Nat) : Option Correspondence := t.slots[slot]?.join

/-- Change both indices of the correspondence at a slot, if the slot is live. -/
def setIndices (t : Table) (slot : Nat) (left right : Option Nat) : Table :=
  match t.get? slot with
  | some c => { t with slots := t.slots.setIfInBounds slot (some { c with left, right }) }
  | none => t

/-- The first live slot with an identifier. -/
def findId? (t : Table) (id : String) : Option Nat := t.byId[id]?

/-- The first live slot of an edge from `s` to `t'`. -/
def findEnds? (t : Table) (s t' : String) : Option Nat := (t.byEnds.getD (s, t') []).head?

/-- The correspondence at the first live slot with an identifier. -/
def lookup? (t : Table) (id : String) : Option Correspondence := (t.findId? id).bind t.get?

/-- The first live slot with an identifier among those from `start` on. -/
def nextWithId? (t : Table) (id : String) (start : Nat) : Option Nat :=
  (List.range' start (t.nextSlot - start)).find? fun slot => (t.get? slot).any (·.id = id)

/-- The index by identifiers after the given slot with the identifier `id` is emptied. -/
def byIdWithout (t : Table) (id : String) (slot : Nat) : Std.TreeMap String Nat :=
  if t.byId[id]? = some slot then
    match t.nextWithId? id (slot + 1) with
    | some next => t.byId.insert id next
    | none => t.byId.erase id
  else
    t.byId

/-- The index by ends after the given slot with the given ends is emptied. -/
def byEndsWithout (t : Table) (ends : Option (String × String)) (slot : Nat) :
    Std.TreeMap (String × String) (List Nat) endsOrder :=
  match ends with
  | none => t.byEnds
  | some ends =>
    match (t.byEnds.getD ends []).filter (· ≠ slot) with
    | [] => t.byEnds.erase ends
    | slots => t.byEnds.insert ends slots

/-- Empty a slot, if it is live. -/
def erase (t : Table) (slot : Nat) : Table :=
  match t.get? slot with
  | none => t
  | some c =>
    { slots := t.slots.setIfInBounds slot none
      byId := t.byIdWithout c.id slot
      byEnds := t.byEndsWithout c.ends? slot
      live := t.live - 1 }

/-- Take the correspondence at a slot out of the table. -/
def remove (t : Table) (slot : Nat) : Option Correspondence × Table := (t.get? slot, t.erase slot)

/-- Remove all correspondences; slots are numbered from the start again. -/
def clear (t : Table) : Table := { t with slots := #[], byId := ∅, byEnds := ∅, live := 0 }

/-- The live slots with their correspondences, in ascending order. -/
def toList (t : Table) : List (Nat × Correspondence) :=
  t.slots.toList.zipIdx.filterMap fun (entry, slot) => entry.map (slot, ·)

/-- The live slots, in ascending order. -/
def handles (t : Table) : List Nat := t.toList.map (·.1)

/-- The number of live slots. -/
def size (t : Table) : Nat := t.live

/-- Whether no slot is live. -/
def isEmpty (t : Table) : Bool := t.size = 0

/-! ### What the slots hold -/

/-- Nothing is left in a table that is cleared. -/
theorem clear_eq (t : Table) : t.clear = empty := rfl

/-- An insertion fills the next slot and changes no other. -/
theorem get?_insert (t : Table) (c : Correspondence) (slot : Nat) :
    (t.insert c).get? slot = if slot = t.nextSlot then some c else t.get? slot := by
  by_cases h : slot = t.slots.size <;> simp [get?, insert, nextSlot, Array.getElem?_push, h]

/-- A change of indices changes the slot alone, if it is live. -/
theorem get?_setIndices (t : Table) (slot : Nat) (left right : Option Nat) (other : Nat) :
    (t.setIndices slot left right).get? other =
      if other = slot then (t.get? slot).map ({ · with left, right }) else t.get? other := by
  unfold setIndices
  split <;> rename_i h <;> grind [get?]

/-- Erasure empties the slot and changes no other. -/
theorem get?_erase (t : Table) (slot other : Nat) :
    (t.erase slot).get? other = if other = slot then none else t.get? other := by
  unfold erase
  split <;> rename_i h <;> grind [get?]

end Table

end GraphTransform.Correspondence
