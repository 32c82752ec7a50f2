import GraphTransform.Proofs.Partition
import GraphTransform.Proofs.SlotList
import GraphTransform.Proofs.Violations

/-!
# What remains of the left edges

The deleted edges are known twice: a rule has them as the left edges that are not preserved, and
while it is built they are what remains in the table of the left edges, after the edges without a
partner were entered into it and taken out again. `Lowering.Settled` says that the two agree, and
that taking out never fails; `exists_settled_of_sides` proves it for every declaration whose sides
can be built.

The table is followed through its three changes: pairing leaves the left edges that are not taken
(`Paired.remains`), entering adds correspondences without a left index behind them, and taking out
erases those and no others (`get?_leftOver`).
-/

namespace GraphTransform

open Correspondence (Table)
open Delta (Pairing Paired)

/-! ### The table -/

namespace Correspondence.Table

theorem get?_foldl_erase (t : Table) (slots : List Nat) (slot : Nat) :
    (slots.foldl erase t).get? slot = if slot ∈ slots then none else t.get? slot := by
  induction slots generalizing t with
  | nil => simp
  | cons first rest ih =>
    rw [List.foldl_cons, ih, get?_erase]
    by_cases hrest : slot ∈ rest <;> by_cases hfirst : slot = first <;> simp [hrest, hfirst]

theorem WellFormed.foldl_erase {t : Table} (h : t.WellFormed) (slots : List Nat) :
    (slots.foldl Table.erase t).WellFormed := by
  induction slots generalizing t with
  | nil => exact h
  | cons slot rest ih => exact ih (h.erase slot)

theorem WellFormed.foldl_insert {t : Table} (h : t.WellFormed) (cs : List Correspondence) :
    (cs.foldl Table.insert t).WellFormed := by
  induction cs generalizing t with
  | nil => exact h
  | cons c rest ih => exact ih (h.insert c)

/-- Correspondences without a left index do not change those that have one. -/
theorem filter_get?_foldl_insert (t : Table) {cs : List Correspondence}
    (hcs : ∀ c ∈ cs, c.left = none) (slot : Nat) :
    ((cs.foldl Table.insert t).get? slot).filter (·.left.isSome) =
      (t.get? slot).filter (·.left.isSome) := by
  induction cs generalizing t with
  | nil => rfl
  | cons c rest ih =>
    rw [List.forall_mem_cons] at hcs
    rw [List.foldl_cons, ih _ hcs.2, get?_insert]
    split
    · next hslot =>
      have hnew : t.get? slot = none := by
        cases hc : t.get? slot with
        | none => rfl
        | some c' => exact absurd (lt_nextSlot_of_get? hc) (by omega)
      simp [hnew, Option.filter, hcs.1]
    · rfl

end Correspondence.Table

namespace Delta

/-- Taking edges out leaves exactly the correspondences with a left index. -/
theorem get?_leftOver (p : Pairing) (slot : Nat) :
    p.leftOver.get? slot = (p.entered.get? slot).filter (·.left.isSome) := by
  have hleft : p.leftOver =
      (p.entered.handles.filter fun slot => (p.entered.rightOnly? slot).isSome).foldl
        Table.erase p.entered := rfl
  rw [hleft, Table.get?_foldl_erase]
  simp only [List.mem_filter, Table.handles_eq, Table.mem_slotsWhere, Table.rightOnly?]
  cases hc : p.entered.get? slot with
  | none => simp
  | some c => cases hl : c.left <;> simp [Option.filter, hl]

namespace Paired

variable {lhs rhs : Graph} {es : List EdgeDecl} {taken : Set Nat} {list : List (EdgeDecl × Nat)}
  {p : Pairing}

/-- **What is left over is what pairing left**: the left edges that are not taken. -/
theorem leftOver_remains (h : Paired lhs rhs es taken list p) :
    p.leftOver.Remains es (taken ∪ {l | ∃ q ∈ p.preserved, q.left = l}) := by
  refine ⟨(h.remains.wellFormed.foldl_insert _).foldl_erase _, fun slot c => ?_⟩
  have hsome : (p.remaining.get? slot).filter (·.left.isSome) = p.remaining.get? slot := by
    cases hc : p.remaining.get? slot with
    | none => rfl
    | some c' => simp [Option.filter, h.remains.left_eq hc]
  rw [get?_leftOver, Pairing.entered,
    Table.filter_get?_foldl_insert _ (fun _ hc => h.left_of_unpaired hc), hsome]
  exact h.remains.get?_iff slot c

end Paired

section OfEdges

variable {es rhsEdges : List EdgeDecl} {edges nodes : Table} {lhs rhs : Graph}
  (h : edges.Remains es ∅) {preserved : List Preserved} {added : List AddedEdge} {remaining : Table}
  (hok : (ofEdges rhsEdges edges nodes lhs rhs).result = .ok (preserved, added, remaining))

include h hok

/-- When the edges are classified, the left edges that are not preserved remain. -/
theorem remains_of_ofEdges : remaining.Remains es {l | ∃ q ∈ preserved, q.left = l} := by
  have hleft := (paired_pairEdges lhs rhs h rhsEdges.zipIdx).leftOver_remains
  rw [ofEdges_result h, bind_eq_ok_iff] at hok
  obtain ⟨added', -, heq⟩ := hok
  simp only [Except.ok.injEq, Prod.mk.injEq] at heq
  obtain ⟨rfl, -, rfl⟩ := heq
  rwa [Set.empty_union] at hleft

/-- When the edges are classified, nothing was missing to add those without a partner. -/
theorem addable_of_ofEdges {c : Correspondence}
    (hc : c ∈ (pairEdges lhs rhs edges rhsEdges.zipIdx).entered.rightOnly) : c.Addable nodes := by
  rw [(paired_pairEdges lhs rhs h rhsEdges.zipIdx).rightOnly_entered] at hc
  rw [ofEdges_result h, bind_eq_ok_iff] at hok
  obtain ⟨added', hadded, -⟩ := hok
  exact exists_addedEdge_iff.mp (exists_mapM_eq_ok_iff.mp ⟨added', hadded⟩ c hc)

end OfEdges

end Delta

namespace Correspondence.Table.Remains

variable {t : Table} {es : List EdgeDecl} {taken : Set Nat} (h : t.Remains es taken)

include h

/-- The live slots are the indices of the left edges that are not taken. -/
theorem mem_handles_iff {slot : Nat} : slot ∈ t.handles ↔ slot < es.length ∧ slot ∉ taken := by
  simp only [handles_eq, mem_slotsWhere, and_true, h.get?_iff]
  constructor
  · rintro ⟨_, hfree, e, he, -⟩
    exact ⟨(List.getElem?_eq_some_iff.mp he).1, hfree⟩
  · rintro ⟨hlt, hfree⟩
    exact ⟨_, hfree, _, List.getElem?_eq_getElem hlt, rfl⟩

/-- The counter tells the number of live slots. -/
theorem size_eq : t.size = t.handles.length := by
  rw [Table.size, h.wellFormed.live, handles_eq]

theorem map_left_toList : t.toList.map (·.2.left) = t.handles.map some := by
  rw [handles, List.map_map]
  refine List.map_congr_left fun entry hentry => ?_
  exact h.left_eq (mem_toList_iff.mp hentry)

end Correspondence.Table.Remains

/-! ### The log -/

namespace Delta

theorem countedEdges_notMem_events (lhs rhs : Graph) (edges : Table) (list : List (EdgeDecl × Nat))
    (i j k : Nat) : .countedEdges i j k ∉ (pairEdges lhs rhs edges list).events := by
  induction list generalizing edges with
  | nil => simp [pairEdges]
  | cons next rest ih =>
    obtain ⟨e, r⟩ := next
    rw [pairEdges]
    cases e.partner? edges with
    | none => exact ih edges
    | some found => simpa using ih (edges.erase found.1)

theorem countedEdges_notMem_takeAdded (nodes edges : Table) (slots : List Nat) (i j k : Nat) :
    .countedEdges i j k ∉ (takeAdded nodes edges slots).trace := by
  induction slots generalizing edges with
  | nil => simp [takeAdded]
  | cons slot rest ih =>
    rw [takeAdded]
    split
    · simp [Traced.mem_trace_bind, ih]
    · exact ih edges

/-- Classifying the edges leaves no record of their numbers. -/
theorem countedEdges_notMem_ofEdges (rhsEdges : List EdgeDecl) (edges nodes : Table)
    (lhs rhs : Graph) (i j k : Nat) :
    .countedEdges i j k ∉ (ofEdges rhsEdges edges nodes lhs rhs).trace := by
  simp [ofEdges, Traced.mem_trace_bind, countedEdges_notMem_events, countedEdges_notMem_takeAdded]

end Delta

namespace Lowering

theorem countedEdges_notMem_sidesBy (d : RuleDecl) (i j k : Nat) :
    .countedEdges i j k ∉ (sidesBy .log d).trace := by
  simp [sidesBy, Traced.mem_trace_bind]

theorem countedEdges_notMem_nodeEvents (nodes : Table) (i j k : Nat) :
    .countedEdges i j k ∉ Delta.nodeEvents nodes := by
  rw [Delta.nodeEvents, List.mem_filterMap]
  rintro ⟨⟨slot, c⟩, -, hc⟩
  cases hl : c.left <;> cases hr : c.right <;> simp [Correspondence.event?, hl, hr] at hc

/-- The numbers of edges are recorded once the edges are classified. -/
theorem countedEdges_mem_delta_iff {d : RuleDecl} {s : Sides} {i j k : Nat} :
    .countedEdges i j k ∈ (delta d s).trace ↔ ∃ preserved added remaining,
      (Delta.ofEdges d.rhs.edges s.leftEdges s.nodes s.lhs s.rhs).result =
        .ok (preserved, added, remaining) ∧
        i = preserved.length ∧ j = remaining.size ∧ k = added.length := by
  simp [delta, Traced.mem_trace_bind, countedEdges_notMem_nodeEvents,
    Delta.countedEdges_notMem_ofEdges]

/-- Only the comparison of the sides records the numbers of edges. -/
theorem countedEdges_mem_lowerTraced_iff {d : RuleDecl} {i j k : Nat} :
    .countedEdges i j k ∈ d.lowerTraced.trace ↔
      ∃ s, (sides d).result = .ok s ∧ .countedEdges i j k ∈ (delta d s).trace := by
  have hcondition (Γ : Scope) (c : Option Condition) :
      .countedEdges i j k ∉ (checkCondition Γ c).trace := by
    cases c <;> simp [checkCondition, Traced.mem_trace_bind]
  simp [RuleDecl.lowerTraced, steps, stepsBy, Traced.mem_trace_onError, Traced.mem_trace_bind,
    countedEdges_notMem_sidesBy, hcondition]

end Lowering

/-! ### Settled edges -/

/-- The table `t` is left over when the sides `s` of a declaration are compared, and `δ` are the
delta lists. -/
structure Lowering.Settled (d : RuleDecl) (s : Lowering.Sides) (δ : Delta) (t : Table) : Prop where
  /-- The delta lists. -/
  delta : (Lowering.delta d s).result = .ok δ
  /-- The delta lists of the edges and the table. -/
  edges : (Delta.ofEdges d.rhs.edges s.leftEdges s.nodes s.lhs s.rhs).result =
    .ok (δ.preservedEdges, δ.addedEdges, t)
  /-- Nothing is missing to add an edge that has no left index when the edges without a partner are
  entered. -/
  addable : ∀ c ∈ (Delta.pairEdges s.lhs s.rhs s.leftEdges d.rhs.edges.zipIdx).entered.rightOnly,
    c.Addable s.nodes
  /-- The rule of the declaration, if its condition is accepted. -/
  rule : ∀ r, d.lower = .ok r → r = s.rule d δ
  /-- Every correspondence that remains has a left index. -/
  left : ∀ slot c, t.get? slot = some c → c.left ≠ none
  /-- The left indices are those of the deleted edges, in order. -/
  deleted : t.toList.map (·.2.left) = (s.rule d δ).deletedEdges.map some
  /-- There are as many correspondences as deleted edges. -/
  size : t.size = (s.rule d δ).deletedEdges.length
  /-- The log tells the numbers of preserved, deleted and added edges. -/
  logged : ∀ i j k, .countedEdges i j k ∈ d.lowerTraced.trace ↔
    i = δ.preservedEdges.length ∧ j = (s.rule d δ).deletedEdges.length ∧ k = δ.addedEdges.length
  /-- The left edges are the preserved and the deleted ones. -/
  leftCount : δ.preservedEdges.length + (s.rule d δ).deletedEdges.length = d.lhs.edges.length
  /-- The right edges are the preserved and the added ones. -/
  rightCount : δ.preservedEdges.length + δ.addedEdges.length = d.rhs.edges.length

/-- The live slots of what remains are the deleted edges. -/
theorem Lowered.handles_eq_deletedEdges {d : RuleDecl} {r : Rule} (h : Lowered d r) {t : Table}
    (ht : t.Remains d.lhs.edges {l | ∃ q ∈ r.preservedEdges, q.left = l}) :
    t.handles = r.deletedEdges := by
  have hhandles : t.handles.Pairwise (· < ·) := by
    rw [Table.handles_eq]
    exact t.sortedLT_slotsWhere _
  have hdeleted : r.deletedEdges.Pairwise (· < ·) := List.pairwise_lt_range.filter _
  refine hhandles.eq_of_mem_iff hdeleted fun l => ?_
  rw [ht.mem_handles_iff, Rule.mem_deletedEdges_iff, h.lhs.size_edges, List.mem_map]
  rfl

/-- **Comparing the sides of a declaration never fails**, and what then remains of the left edges
are those that the rule deletes. -/
theorem exists_settled_of_sides {d : RuleDecl} {s : Lowering.Sides}
    (h : (Lowering.sides d).result = .ok s) : ∃ δ t, Lowering.Settled d s δ t := by
  have hb := Lowering.built_of_sides h
  obtain ⟨δ, hδ⟩ := Lowering.exists_delta hb
  have hl := Lowering.lowered_of_delta h hδ
  obtain ⟨preserved, added, t, hedges, rfl⟩ := Lowering.delta_eq_ok_iff.mp hδ
  have ht := Delta.remains_of_ofEdges hb.leftEdges.remains hedges
  have hhandles := hl.handles_eq_deletedEdges ht
  exact ⟨_, t, {
    delta := hδ
    edges := hedges
    addable := fun c hc => Delta.addable_of_ofEdges hb.leftEdges.remains hedges hc
    rule := by
      intro r hr
      obtain ⟨s', hs', δ', hδ', -, rfl⟩ := RuleDecl.lower_eq_ok_iff.mp hr
      obtain rfl := Except.ok.inj (h.symm.trans hs')
      obtain rfl := Except.ok.inj (hδ.symm.trans hδ')
      rfl
    left := fun slot c hc => by simp [ht.left_eq hc]
    deleted := by rw [ht.map_left_toList, hhandles]
    size := by rw [ht.size_eq, hhandles]
    logged := fun i j k => by
      rw [← hhandles, ← ht.size_eq]
      simp [Lowering.countedEdges_mem_lowerTraced_iff,
        Lowering.countedEdges_mem_delta_iff, h, hedges]
    leftCount := hl.length_leftEdges
    rightCount := hl.length_rightEdges }⟩

/-- The rule that moves an edge is an instance: the edge at its old place remains. -/
theorem exists_settled_moveEdge : ∃ s, (Lowering.sides moveEdge).result = .ok s ∧
    ∃ t, Lowering.Settled moveEdge s moveEdgeRule.delta t ∧ t.toList.map (·.2.left) = [some 0] := by
  obtain ⟨s, hs, -⟩ := RuleDecl.lower_eq_ok_iff.mp lower_moveEdge
  obtain ⟨δ, t, h⟩ := exists_settled_of_sides hs
  have hrule := h.rule moveEdgeRule lower_moveEdge
  obtain rfl : moveEdgeRule.delta = δ := congrArg Rule.delta hrule
  exact ⟨s, hs, t, h, by rw [h.deleted, ← hrule]; rfl⟩

end GraphTransform
