import GraphTransform.Proofs.NodeTable
import GraphTransform.Proofs.Pairing
import GraphTransform.Proofs.Sequences

/-!
# Added edges

The edges without a partner are entered into the table that pairing leaves, and are then taken out
of it one after the other, each as an added edge with two anchors. `takeAdded_result` says what is
taken: of the live slots exactly those without a left index, in their order. `Anchor.Denotes` says
what an anchor stands for, in terms of the identifiers of both sides, and
`Correspondence.Addable` what has to be there to take an edge out.
-/

namespace GraphTransform

open Correspondence (Table nodeEntries)

namespace Correspondence.Table

/-- The correspondence at a slot, if it has no left index. -/
def rightOnly? (t : Table) (slot : Nat) : Option Correspondence :=
  (t.get? slot).filter (·.left.isNone)

/-- The live correspondences without a left index, in the order of their slots. -/
def rightOnly (t : Table) : List Correspondence := t.handles.filterMap t.rightOnly?

theorem rightOnly_eq_nil {t : Table} (h : ∀ slot c, t.get? slot = some c → c.left.isNone = false) :
    t.rightOnly = [] := by
  rw [rightOnly, List.filterMap_eq_nil_iff]
  intro slot _
  rw [rightOnly?]
  cases hc : t.get? slot with
  | none => rfl
  | some c => rw [Option.filter, if_neg (by simp [h slot c hc])]

theorem rightOnly?_erase_of_ne {t : Table} {slot other : Nat} (h : other ≠ slot) :
    (t.erase slot).rightOnly? other = t.rightOnly? other := by
  rw [rightOnly?, get?_erase, if_neg h, rightOnly?]

theorem handles_insert (t : Table) (c : Correspondence) :
    (t.insert c).handles = t.handles ++ [t.nextSlot] := by
  rw [handles_eq, slotsWhere_insert, if_pos rfl, handles_eq]

theorem rightOnly_insert (t : Table) (c : Correspondence) :
    (t.insert c).rightOnly = t.rightOnly ++ [c].filter (·.left.isNone) := by
  have hold : t.handles.filterMap (t.insert c).rightOnly? = t.rightOnly := by
    refine List.filterMap_congr fun slot hslot => ?_
    rw [handles_eq] at hslot
    obtain ⟨c', hc', -⟩ := mem_slotsWhere.mp hslot
    rw [rightOnly?, get?_insert, if_neg (Nat.ne_of_lt (lt_nextSlot_of_get? hc')), rightOnly?]
  have hnew : (t.insert c).rightOnly? t.nextSlot = (some c).filter (·.left.isNone) := by
    rw [rightOnly?, get?_insert, if_pos rfl]
  rw [rightOnly, handles_insert, List.filterMap_append, hold]
  congr 1
  cases hp : c.left.isNone <;> simp [hnew, hp, Option.filter]

theorem rightOnly_foldl_insert (t : Table) (cs : List Correspondence) :
    (cs.foldl insert t).rightOnly = t.rightOnly ++ cs.filter (·.left.isNone) := by
  induction cs generalizing t with
  | nil => simp
  | cons c cs ih =>
    rw [List.foldl_cons, ih, rightOnly_insert, List.append_assoc, ← List.filter_append,
      List.singleton_append]

end Correspondence.Table

/-! ### Anchors -/

/-- The anchor stands for the node with the identifier `id`, for the identifiers of both sides: on
the left for a preserved node, and on the right for an added one. -/
def Anchor.Denotes (a : Anchor) (ls rs : List String) (id : String) : Prop :=
  match a.side with
  | .left => ls.idxOf? id = some a.index ∧ id ∈ rs
  | .right => rs.idxOf? id = some a.index ∧ id ∉ ls

/-- The edge is added for the declared edge at an index of the right side. -/
structure AddedEdge.Realizes (A : AddedEdge) (ls rs : List String) (e : EdgeDecl) (r : Nat) :
    Prop where
  /-- The index. -/
  index : A.index = r
  /-- The anchor of the source. -/
  source : A.source.Denotes ls rs e.source
  /-- The anchor of the target. -/
  target : A.target.Denotes ls rs e.target

/-- Nothing is missing to make the correspondence of an edge of the right side an added edge. -/
structure Correspondence.Addable (nodes : Table) (c : Correspondence) : Prop where
  /-- It has an index in the right graph. -/
  right : c.right.isSome
  /-- Its source has a name, which is that of a node of the right side. -/
  source : ∃ id n, c.source = some id ∧ nodes.lookup? id = some n ∧ n.right.isSome
  /-- Its target has a name, which is that of a node of the right side. -/
  target : ∃ id n, c.target = some id ∧ nodes.lookup? id = some n ∧ n.right.isSome

namespace Delta

theorem anchor_eq_ok_iff {nodes : Table} {ls rs : List String} (h : nodes.Holds (nodeEntries ls rs))
    (edge : Correspondence) (id : String) (a : Anchor) :
    anchor nodes edge (some id) = .ok a ↔ a.Denotes ls rs id := by
  have hmem (ids : List String) : id ∈ ids ↔ (ids.idxOf? id).isSome = true :=
    List.isSome_idxOf?.symm
  obtain ⟨side, index⟩ := a
  rw [anchor, h.lookup?, Correspondence.find?_nodeEntries, Anchor.Denotes]
  simp only [hmem]
  cases hl : ls.idxOf? id <;> cases hr : rs.idxOf? id <;> cases side <;>
    simp [Correspondence.ofIds, hl, hr]

theorem addedEdge_eq_ok_iff {nodes : Table} {ls rs : List String}
    (h : nodes.Holds (nodeEntries ls rs)) (e : EdgeDecl) (r : Nat) (A : AddedEdge) :
    addedEdge nodes (e.correspondence .right r) = .ok A ↔ A.Realizes ls rs e r := by
  have hc : e.correspondence .right r =
      { id := e.name, right := some r, source := some e.source, target := some e.target } := rfl
  simp only [addedEdge, hc, bind_eq_ok_iff, anchor_eq_ok_iff h]
  constructor
  · rintro ⟨source, hs, target, ht, heq⟩
    obtain rfl := Except.ok.inj heq
    exact ⟨rfl, hs, ht⟩
  · rintro ⟨rfl, hs, ht⟩
    exact ⟨A.source, hs, A.target, ht, rfl⟩

/-- There is an anchor for exactly the names of nodes of the right side. -/
theorem exists_anchor_iff {nodes : Table} {edge : Correspondence} {node : Option String} :
    (∃ a, anchor nodes edge node = .ok a) ↔
      ∃ id n, node = some id ∧ nodes.lookup? id = some n ∧ n.right.isSome := by
  cases node with
  | none => simp [anchor]
  | some id =>
    cases hn : nodes.lookup? id with
    | none => simp [anchor, hn]
    | some n => cases hl : n.left <;> cases hr : n.right <;> simp [anchor, hn, hl, hr]

/-- An edge can be added exactly if nothing is missing. -/
theorem exists_addedEdge_iff {nodes : Table} {c : Correspondence} :
    (∃ A, addedEdge nodes c = .ok A) ↔ c.Addable nodes := by
  have hparts : c.Addable nodes ↔ c.right.isSome ∧ (∃ a, anchor nodes c c.source = .ok a) ∧
      ∃ a, anchor nodes c c.target = .ok a := by
    rw [exists_anchor_iff, exists_anchor_iff]
    exact ⟨fun h => ⟨h.right, h.source, h.target⟩, fun h => ⟨h.1, h.2.1, h.2.2⟩⟩
  rw [hparts, addedEdge]
  cases c.right with
  | none => simp
  | some index =>
    simp only [bind_eq_ok_iff, Option.isSome_some, true_and]
    constructor
    · rintro ⟨_, source, hs, target, ht, -⟩
      exact ⟨⟨source, hs⟩, target, ht⟩
    · rintro ⟨⟨source, hs⟩, target, ht⟩
      exact ⟨_, source, hs, target, ht, rfl⟩

/-! ### Taking edges out -/

/-- The edges taken out of a table are those at the given slots that have no left index. -/
theorem takeAdded_result (nodes t : Table) {slots : List Nat} (h : slots.Nodup) :
    (takeAdded nodes t slots).result =
      (slots.filterMap t.rightOnly?).mapM (addedEdge nodes) >>= fun added =>
      .ok (added, (slots.filter fun slot => (t.rightOnly? slot).isSome).foldl Table.erase t) := by
  induction slots generalizing t with
  | nil => rfl
  | cons slot rest ih =>
    rw [List.nodup_cons] at h
    cases hc : t.rightOnly? slot with
    | none =>
      rw [takeAdded, ← Table.rightOnly?, hc, List.filterMap_cons_none hc,
        List.filter_cons_of_neg (by simp [hc])]
      exact ih t h.2
    | some c =>
      -- the slots that follow are other ones, so the erasure does not change what is taken of them
      have hother {other : Nat} (hmem : other ∈ rest) :
          (t.erase slot).rightOnly? other = t.rightOnly? other := by
        refine Table.rightOnly?_erase_of_ne ?_
        rintro rfl
        exact h.1 hmem
      have hmap : rest.filterMap (t.erase slot).rightOnly? = rest.filterMap t.rightOnly? :=
        List.filterMap_congr fun other hmem => hother hmem
      have hfilter : rest.filter (fun slot' => ((t.erase slot).rightOnly? slot').isSome) =
          rest.filter fun slot' => (t.rightOnly? slot').isSome :=
        List.filter_congr fun other hmem => by rw [hother hmem]
      rw [takeAdded, ← Table.rightOnly?, hc, List.filterMap_cons_some hc,
        List.filter_cons_of_pos (by simp [hc]), List.mapM_cons, List.foldl_cons]
      simp only [Traced.result_bind, Traced.result_liftM, Traced.result_emit, Traced.result_pure,
        ih _ h.2, hmap, hfilter, bind_assoc]
      rfl

/-- The table of the edges after those without a partner are entered. -/
def Pairing.entered (p : Pairing) : Table := p.unpaired.foldl Table.insert p.remaining

/-- The table of the edges after those without a partner are entered and taken out again. -/
def Pairing.leftOver (p : Pairing) : Table :=
  let all := p.unpaired.foldl Table.insert p.remaining
  (all.handles.filter fun slot => (all.rightOnly? slot).isSome).foldl Table.erase all

namespace Paired

variable {lhs rhs : Graph} {es : List EdgeDecl} {taken : Set Nat} {list : List (EdgeDecl × Nat)}
  {p : Pairing} (h : Paired lhs rhs es taken list p)

include h

/-- An edge without a partner has no left index. -/
theorem left_of_unpaired {c : Correspondence} (hc : c ∈ p.unpaired) : c.left = none := by
  obtain ⟨e, r, -, rfl⟩ := h.exists_of_unpaired hc
  rfl

/-- The correspondences without a left index are those of the edges without a partner. -/
theorem rightOnly_entered : p.entered.rightOnly = p.unpaired := by
  have hremaining : p.remaining.rightOnly = [] := by
    refine Table.rightOnly_eq_nil fun slot c hc => ?_
    rw [h.remains.left_eq hc]
    rfl
  rw [Pairing.entered, Table.rightOnly_foldl_insert, hremaining, List.nil_append,
    List.filter_eq_self]
  intro c hc
  rw [h.left_of_unpaired hc]
  rfl

end Paired

/-- The delta lists of the edges: the pairs, and an added edge for each edge without a partner. -/
theorem ofEdges_result {es : List EdgeDecl} {edges : Table} (h : edges.Remains es ∅)
    (rhsEdges : List EdgeDecl) (nodes : Table) (lhs rhs : Graph) :
    (ofEdges rhsEdges edges nodes lhs rhs).result =
      (pairEdges lhs rhs edges rhsEdges.zipIdx).unpaired.mapM (addedEdge nodes) >>= fun added =>
        .ok ((pairEdges lhs rhs edges rhsEdges.zipIdx).preserved, added,
          (pairEdges lhs rhs edges rhsEdges.zipIdx).leftOver) := by
  have htaken := (paired_pairEdges lhs rhs h rhsEdges.zipIdx).rightOnly_entered
  rw [Pairing.entered, Table.rightOnly] at htaken
  rw [ofEdges]
  generalize pairEdges lhs rhs edges rhsEdges.zipIdx = p at htaken
  have hnodup : (p.unpaired.foldl Table.insert p.remaining).handles.Nodup := by
    rw [Table.handles_eq]
    exact Table.nodup_slotsWhere _ _
  simp only [Traced.result_bind, Traced.result_emitAll, takeAdded_result nodes _ hnodup, htaken,
    Traced.result_pure, bind_assoc]
  rfl

/-- What the delta lists of the edges are, if there are any. -/
theorem ofEdges_eq_ok {es rhsEdges : List EdgeDecl} {edges nodes : Table} {lhs rhs : Graph}
    (h : edges.Remains es ∅) {preserved : List Preserved} {added : List AddedEdge}
    {remaining : Table}
    (hok : (ofEdges rhsEdges edges nodes lhs rhs).result = .ok (preserved, added, remaining)) :
    ∃ p, Paired lhs rhs es ∅ rhsEdges.zipIdx p ∧ preserved = p.preserved ∧
      List.Forall₂ (fun A c => addedEdge nodes c = .ok A) added p.unpaired := by
  rw [ofEdges_result h, bind_eq_ok_iff] at hok
  obtain ⟨added', hadded, heq⟩ := hok
  simp only [Except.ok.injEq, Prod.mk.injEq] at heq
  obtain ⟨rfl, rfl, -⟩ := heq
  exact ⟨_, paired_pairEdges lhs rhs h rhsEdges.zipIdx, rfl, mapM_eq_ok_iff.mp hadded⟩

/-- Every edge whose ends are nodes of the right side can be added. -/
theorem addable_of_ends {nodes : Table} {ls rs : List String} (h : nodes.Holds (nodeEntries ls rs))
    {e : EdgeDecl} (hs : e.source ∈ rs) (ht : e.target ∈ rs) (r : Nat) :
    (e.correspondence .right r).Addable nodes := by
  have hend {id : String} (hid : id ∈ rs) :
      ∃ id' n, some id = some id' ∧ nodes.lookup? id' = some n ∧ n.right.isSome := by
    refine ⟨id, Correspondence.ofIds ls rs id, rfl, ?_, List.isSome_idxOf?.mpr hid⟩
    rw [h.lookup?, Correspondence.find?_nodeEntries, if_pos (Or.inr hid)]
  exact ⟨rfl, hend hs, hend ht⟩

/-- There are delta lists if the ends of all edges of the right side are nodes of it. -/
theorem exists_ofEdges {es rhsEdges : List EdgeDecl} {edges nodes : Table} {ls rs : List String}
    (lhs rhs : Graph) (h : edges.Remains es ∅) (hnodes : nodes.Holds (nodeEntries ls rs))
    (hends : ∀ e ∈ rhsEdges, e.source ∈ rs ∧ e.target ∈ rs) :
    ∃ lists, (ofEdges rhsEdges edges nodes lhs rhs).result = .ok lists := by
  have hadded : ∃ added,
      (pairEdges lhs rhs edges rhsEdges.zipIdx).unpaired.mapM (addedEdge nodes) = .ok added := by
    rw [exists_mapM_eq_ok_iff]
    intro c hc
    obtain ⟨e, r, her, rfl⟩ := (paired_pairEdges lhs rhs h rhsEdges.zipIdx).exists_of_unpaired hc
    have he := hends e (List.mem_of_getElem? (List.mem_zipIdx_iff_getElem?.mp her))
    exact exists_addedEdge_iff.mpr (addable_of_ends hnodes he.1 he.2 r)
  obtain ⟨added, hadded⟩ := hadded
  exact ⟨_, by rw [ofEdges_result h, hadded]; rfl⟩

end Delta

end GraphTransform
