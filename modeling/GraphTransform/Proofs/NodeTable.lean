import GraphTransform.Lowering.Sides
import GraphTransform.Proofs.Indexing

/-!
# The table of the nodes

The nodes of the left side are entered first, and then those of the right side, each into the
correspondence that its identifier has or into a new one. When the identifiers of each side are
distinct, the table that results is `nodeEntries`: one correspondence for each identifier, which
holds its position on either side; first those of the left side, then those of the right side only.
-/

namespace GraphTransform

/-- Among distinct identifiers, a position holds an identifier exactly if it is found there. -/
theorem idxOf?_eq_some_iff_getElem? {ids : List String} (h : ids.Nodup) {id : String} {i : Nat} :
    ids.idxOf? id = some i ↔ ids[i]? = some id := by
  rw [List.idxOf?_eq_some_iff]
  constructor
  · rintro ⟨hlt, hid, -⟩
    rw [List.getElem?_eq_getElem hlt, hid]
  · intro hi
    obtain ⟨hlt, hid⟩ := List.getElem?_eq_some_iff.mp hi
    refine ⟨hlt, hid, fun j hji hj => ?_⟩
    have := (h.getElem_inj_iff).mp (hj.trans hid.symm)
    omega

theorem idxOf?_append_singleton_of_ne {ids : List String} {id x : String} (h : id ≠ x) :
    (ids ++ [x]).idxOf? id = ids.idxOf? id := by
  simp [List.idxOf?, h.symm]

theorem idxOf?_append_singleton_self {ids : List String} {x : String} (h : x ∉ ids) :
    (ids ++ [x]).idxOf? x = some ids.length := by
  have hx : ids.idxOf? x = none := List.idxOf?_eq_none_iff.mpr h
  rw [List.idxOf?] at hx
  simp [List.idxOf?, hx]

namespace Correspondence

/-- The correspondence of a node, for the identifiers of the nodes of both sides. -/
def ofIds (ls rs : List String) (id : String) : Correspondence where
  id := id
  left := ls.idxOf? id
  right := rs.idxOf? id

/-- The identifiers of the nodes of a side. -/
def sideIds (ls rs : List String) : Side → List String
  | .left => ls
  | .right => rs

/-- The index on a side is the position among the identifiers of that side. -/
theorem index?_ofIds (ls rs : List String) (id : String) (side : Side) :
    (ofIds ls rs id).index? side = (sideIds ls rs side).idxOf? id := by
  cases side <;> rfl

theorem ofIds_append_of_ne (ls : List String) {rs : List String} {id x : String} (h : id ≠ x) :
    ofIds ls (rs ++ [x]) id = ofIds ls rs id := by
  rw [ofIds, idxOf?_append_singleton_of_ne h, ofIds]

theorem ofIds_append_self (ls : List String) {rs : List String} {x : String} (h : x ∉ rs) :
    ofIds ls (rs ++ [x]) x = { ofIds ls rs x with right := some rs.length } := by
  rw [ofIds, idxOf?_append_singleton_self h, ofIds]

/-- The identifiers of a rule: those of the left side, then those of the right side only. -/
def allIds (ls rs : List String) : List String := ls ++ rs.filter (· ∉ ls)

/-- The correspondences of the nodes of a rule, for the identifiers of both sides. -/
def nodeEntries (ls rs : List String) : List Correspondence := (allIds ls rs).map (ofIds ls rs)

theorem mem_allIds {ls rs : List String} {id : String} : id ∈ allIds ls rs ↔ id ∈ ls ∨ id ∈ rs := by
  by_cases h : id ∈ ls <;> simp [allIds, h]

theorem nodup_allIds {ls rs : List String} (hl : ls.Nodup) (hr : rs.Nodup) :
    (allIds ls rs).Nodup := by
  refine List.Nodup.append hl (hr.filter _) ?_
  intro id hid hid'
  simp only [List.mem_filter, decide_eq_true_eq] at hid'
  exact hid'.2 hid

theorem nodeEntries_getElem? (ls rs : List String) (slot : Nat) :
    (nodeEntries ls rs)[slot]? = (allIds ls rs)[slot]?.map (ofIds ls rs) := List.getElem?_map ..

/-- The correspondence with an identifier, if a side has it. -/
theorem find?_nodeEntries (ls rs : List String) (id : String) :
    (nodeEntries ls rs).find? (·.id = id) =
      if id ∈ ls ∨ id ∈ rs then some (ofIds ls rs id) else none := by
  cases hf : (nodeEntries ls rs).find? (·.id = id) with
  | none =>
    rw [List.find?_eq_none] at hf
    rw [if_neg]
    intro h
    have := hf _ (List.mem_map_of_mem (mem_allIds.mpr h))
    simp [ofIds] at this
  | some c =>
    obtain ⟨id', hid', rfl⟩ := List.mem_map.mp (List.mem_of_find?_eq_some hf)
    have heq := List.find?_some hf
    rw [decide_eq_true_eq] at heq
    obtain rfl : id' = id := heq
    rw [if_pos (mem_allIds.mp hid')]

/-! ### Entering the nodes -/

/-- A new node of both sides: its correspondence gets an index on the right. -/
theorem nodeEntries_append_of_mem {ls rs : List String} {x : String} (hl : ls.Nodup) (hr : rs.Nodup)
    (hx : x ∈ ls) (hxr : x ∉ rs) {slot : Nat} (hslot : (allIds ls rs)[slot]? = some x) :
    nodeEntries ls (rs ++ [x]) =
      (nodeEntries ls rs).set slot { ofIds ls rs x with right := some rs.length } := by
  have hids : allIds ls (rs ++ [x]) = allIds ls rs := by simp [allIds, hx]
  refine List.ext_getElem? fun k => ?_
  rw [nodeEntries_getElem?, hids, List.getElem?_set]
  obtain ⟨hlt, hget⟩ := List.getElem?_eq_some_iff.mp hslot
  by_cases hk : slot = k
  · subst hk
    rw [if_pos rfl, if_pos (by simpa [nodeEntries] using hlt), hslot, Option.map_some,
      ofIds_append_self ls hxr]
  · rw [if_neg hk, nodeEntries_getElem?]
    cases hid : (allIds ls rs)[k]? with
    | none => rfl
    | some id =>
      have hne : id ≠ x := by
        rintro rfl
        obtain ⟨hlt', hget'⟩ := List.getElem?_eq_some_iff.mp hid
        exact hk ((nodup_allIds hl hr).getElem_inj_iff.mp (hget.trans hget'.symm))
      rw [Option.map_some, Option.map_some, ofIds_append_of_ne ls hne]

/-- A new node of the right side only: it gets a correspondence of its own. -/
theorem nodeEntries_append_of_not_mem {ls rs : List String} {x : String} (hx : x ∉ ls)
    (hxr : x ∉ rs) :
    nodeEntries ls (rs ++ [x]) =
      nodeEntries ls rs ++ [{ ofIds ls rs x with right := some rs.length }] := by
  have hids : allIds ls (rs ++ [x]) = allIds ls rs ++ [x] := by simp [allIds, hx]
  rw [nodeEntries, hids, List.map_append, List.map_singleton, ofIds_append_self ls hxr, nodeEntries]
  congr 1
  refine List.map_congr_left fun id hid => ofIds_append_of_ne ls ?_
  rintro rfl
  exact (mem_allIds.mp hid).elim hx hxr

end Correspondence

namespace Lowering

open Correspondence

theorem leftNodes_eq (nodes : List (NodeDecl × Nat)) :
    leftNodes nodes = (nodes.map fun (n, l) => n.correspondence .left l).foldl Table.insert
      Table.empty := by
  rw [leftNodes, List.foldl_map]

/-- The table after the nodes of the left side. -/
theorem leftNodes_holds {nodes : List NodeDecl} (h : (nodes.map (·.id)).Nodup) :
    (leftNodes nodes.zipIdx).Holds (nodeEntries (nodes.map (·.id)) []) := by
  have hentries : nodeEntries (nodes.map (·.id)) [] =
      nodes.zipIdx.map fun (n, l) => n.correspondence .left l := by
    refine List.ext_getElem? fun k => ?_
    rw [nodeEntries_getElem?, List.getElem?_map, List.getElem?_zipIdx, allIds, List.filter_nil,
      List.append_nil, List.getElem?_map]
    cases hn : nodes[k]? with
    | none => rfl
    | some n =>
      have hpos : (nodes.map (·.id)).idxOf? n.id = some k :=
        (idxOf?_eq_some_iff_getElem? h).mpr (by rw [List.getElem?_map, hn]; rfl)
      simp [ofIds, hpos, NodeDecl.correspondence]
  rw [leftNodes_eq, hentries]
  simpa using Table.holds_empty.foldl_insert
    (nodes.zipIdx.map fun (n, l) => n.correspondence .left l)

/-- The table after one more node of the right side. -/
theorem addRightNode_holds {t : Table} {ls rs : List String} (h : t.Holds (nodeEntries ls rs))
    (hl : ls.Nodup) (hr : rs.Nodup) (n : NodeDecl) (hn : n.id ∉ rs) :
    (addRightNode t n rs.length).Holds (nodeEntries ls (rs ++ [n.id])) := by
  have hfind : t.findId? n.id = (allIds ls rs).idxOf? n.id := by
    rw [h.findId?, nodeEntries, List.findIdx?_map, List.idxOf?]
    exact congrArg (List.findIdx? · _) (funext fun id => Bool.eq_iff_iff.mpr <| by
      rw [Function.comp_apply, decide_eq_true_eq, beq_iff_eq, ofIds])
  have hids := nodup_allIds hl hr
  by_cases hx : n.id ∈ ls
  · obtain ⟨slot, hslot⟩ :=
      Option.isSome_iff_exists.mp (List.isSome_idxOf?.mpr (mem_allIds.mpr (Or.inl hx)))
    have hget := (idxOf?_eq_some_iff_getElem? hids).mp hslot
    have hentry : (nodeEntries ls rs)[slot]? = some (ofIds ls rs n.id) := by
      rw [nodeEntries_getElem?, hget]
      rfl
    rw [addRightNode, hfind, hslot]
    simp only [h.get?, hentry]
    rw [nodeEntries_append_of_mem hl hr hx hn hget]
    exact h.setIndices hentry _ _
  · have hnone : (allIds ls rs).idxOf? n.id = none :=
      List.idxOf?_eq_none_iff.mpr fun hmem => (mem_allIds.mp hmem).elim hx hn
    have hleft : ls.idxOf? n.id = none := List.idxOf?_eq_none_iff.mpr hx
    rw [addRightNode, hfind, hnone, nodeEntries_append_of_not_mem hx hn]
    have hentry : n.correspondence .right rs.length =
        { ofIds ls rs n.id with right := some rs.length } := by
      simp [NodeDecl.correspondence, ofIds, hleft]
    rw [← hentry]
    exact h.insert _

/-- The table after the nodes of both sides. -/
theorem nodes_holds {left right : List NodeDecl} (hl : (left.map (·.id)).Nodup)
    (hr : (right.map (·.id)).Nodup) :
    (addRightNodes (leftNodes left.zipIdx) right.zipIdx).Holds
      (nodeEntries (left.map (·.id)) (right.map (·.id))) := by
  induction right using List.reverseRecOn with
  | nil => exact leftNodes_holds hl
  | append_singleton right n ih =>
    rw [List.map_append, List.map_singleton, List.nodup_append] at hr
    have hn : n.id ∉ right.map (·.id) := fun hmem => hr.2.2 _ hmem _ (List.mem_singleton_self _) rfl
    have hstep := addRightNode_holds (ih hr.1) hl hr.1 n hn
    rw [List.length_map] at hstep
    rw [List.zipIdx_append, addRightNodes, List.foldl_append, List.map_append, List.map_singleton]
    simpa [addRightNodes] using hstep

end Lowering

end GraphTransform
