import GraphTransform.Lowering
import GraphTransform.Proofs.AddedEdges
import GraphTransform.Proofs.Sides

/-!
# What a declaration lowers to

When a declaration lowers to a rule, the rule is determined by facts about the declaration alone,
without tables: its graphs realize the two sides, its nodes are classified by their identifiers
(`mem_preservedNodes_iff` and its companions), and its edges are paired by the law of pairing
(`mem_preservedEdges_iff`). The other theorems about rules start from here.
-/

namespace GraphTransform

open Correspondence
open Delta (Paired takenBefore)

/-! ### The steps of lowering -/

/-- A declaration lowers to a rule exactly if its steps yield it. -/
theorem RuleDecl.lower_eq_ok_iff {d : RuleDecl} {r : Rule} :
    d.lower = .ok r ↔ ∃ s, (Lowering.sides d).result = .ok s ∧
      ∃ δ, (Lowering.delta d s).result = .ok δ ∧
      (Lowering.checkCondition s.scope d.condition).result = .ok () ∧
      r = { name := d.name, vars := s.vars, lhs := s.lhs, rhs := s.rhs, delta := δ,
            condition := d.condition } := by
  rw [lower, lowerTraced, Traced.result_onError_eq_ok_iff]
  simp only [Lowering.steps, Lowering.stepsBy, Traced.result_bind_eq_ok_iff, Traced.result_pure,
    Lowering.Recorder.result_note, Lowering.Recorder.relay_log, Lowering.result_sidesBy,
    Except.ok.injEq]
  constructor
  · rintro ⟨-, -, s, hs, δ, hδ, ⟨⟩, hc, -, -, rfl⟩
    exact ⟨s, hs, δ, hδ, hc, rfl⟩
  · rintro ⟨s, hs, δ, hδ, hc, rfl⟩
    exact ⟨(), trivial, s, hs, δ, hδ, (), hc, (), trivial, rfl⟩

/-- The delta lists are those of the nodes and those of the edges. -/
theorem Lowering.delta_eq_ok_iff {d : RuleDecl} {s : Lowering.Sides} {δ : Delta} :
    (Lowering.delta d s).result = .ok δ ↔ ∃ preservedEdges addedEdges remaining,
      (Delta.ofEdges d.rhs.edges s.leftEdges s.nodes s.lhs s.rhs).result =
        .ok (preservedEdges, addedEdges, remaining) ∧
        δ = { Delta.ofNodes s.lhs s.rhs s.nodes with preservedEdges, addedEdges } := by
  simp only [Lowering.delta, Traced.result_bind_eq_ok_iff, Traced.result_emitAll,
    Traced.result_emit, Traced.result_pure, Except.ok.injEq, Prod.exists]
  constructor
  · rintro ⟨-, -, preserved, added, remaining, hedges, -, -, -, -, rfl⟩
    exact ⟨preserved, added, remaining, hedges, rfl⟩
  · rintro ⟨preserved, added, remaining, hedges, rfl⟩
    exact ⟨(), trivial, preserved, added, remaining, hedges, (), trivial, (), trivial, rfl⟩

/-- What is known of a rule that a declaration lowers to. -/
structure Lowered (d : RuleDecl) (r : Rule) : Prop where
  /-- The identifiers of the left nodes are distinct. -/
  leftIds : d.lhs.nodeIds.Nodup
  /-- The identifiers of the right nodes are distinct. -/
  rightIds : d.rhs.nodeIds.Nodup
  /-- The identifiers that left edges carry are distinct. -/
  leftEdgeIds : d.lhs.edgeIds.Nodup
  /-- The identifiers that right edges carry are distinct. -/
  rightEdgeIds : d.rhs.edgeIds.Nodup
  /-- The left graph realizes the left side. -/
  lhs : r.lhs.Realizes d.lhs
  /-- The right graph realizes the right side. -/
  rhs : r.rhs.Realizes d.rhs
  /-- The nodes of both sides. -/
  preservedNodes : r.preservedNodes = d.nodeEntries.filterMap (·.preserved? r.lhs r.rhs)
  /-- The nodes of the left side only. -/
  deletedNodes : r.deletedNodes = d.nodeEntries.filterMap (·.deleted?)
  /-- The nodes of the right side only. -/
  addedNodes : r.addedNodes = d.nodeEntries.filterMap (·.added?)
  /-- The edges are paired, and those without a partner are added. -/
  edges : ∃ p, Paired r.lhs r.rhs d.lhs.edges ∅ d.rhs.edges.zipIdx p ∧
    r.preservedEdges = p.preserved ∧
    List.Forall₂ (fun A c => ∃ e k, d.rhs.edges[k]? = some e ∧ c = e.correspondence .right k ∧
      A.Realizes d.lhs.nodeIds d.rhs.nodeIds e k) r.addedEdges p.unpaired

/-- The rule that delta lists make of both sides. -/
def Lowering.Sides.rule (s : Lowering.Sides) (d : RuleDecl) (δ : Delta) : Rule where
  name := d.name
  vars := s.vars
  lhs := s.lhs
  rhs := s.rhs
  delta := δ
  condition := d.condition

/-- Once both sides are compared, the rule is determined by the declaration, even if its condition
is refused. -/
theorem Lowering.lowered_of_delta {d : RuleDecl} {s : Lowering.Sides} {δ : Delta}
    (hs : (Lowering.sides d).result = .ok s) (hδ : (Lowering.delta d s).result = .ok δ) :
    Lowered d (s.rule d δ) := by
  have hb := Lowering.built_of_sides hs
  obtain ⟨preserved, added, remaining, hedges, rfl⟩ := Lowering.delta_eq_ok_iff.mp hδ
  obtain ⟨p, hp, rfl, hadded⟩ := Delta.ofEdges_eq_ok hb.leftEdges.remains hedges
  have hentries := hb.nodes.map_toList
  exact {
    leftIds := hb.leftIds
    rightIds := hb.rightIds
    leftEdgeIds := hb.leftEdgeIds
    rightEdgeIds := hb.rightEdgeIds
    lhs := hb.lhs
    rhs := hb.rhs
    preservedNodes := by rw [← hentries]; rfl
    deletedNodes := by rw [← hentries]; rfl
    addedNodes := by rw [← hentries]; rfl
    edges := by
      refine ⟨p, hp, rfl, List.forall₂_iff_get.mpr ⟨hadded.length_eq, fun k h₁ h₂ => ?_⟩⟩
      obtain ⟨e, i, hmem, hc⟩ := hp.exists_of_unpaired (List.get_mem p.unpaired ⟨k, h₂⟩)
      have hA := hadded.get h₁ h₂
      rw [hc, Delta.addedEdge_eq_ok_iff hb.nodes] at hA
      exact ⟨e, i, List.mem_zipIdx_iff_getElem?.mp hmem, hc, hA⟩ }

/-- A rule that a declaration lowers to is determined by the declaration. -/
theorem lowered_of_lower {d : RuleDecl} {r : Rule} (h : d.lower = .ok r) : Lowered d r := by
  obtain ⟨s, hs, δ, hδ, -, rfl⟩ := RuleDecl.lower_eq_ok_iff.mp h
  exact Lowering.lowered_of_delta hs hδ

namespace Lowered

variable {d : RuleDecl} {r : Rule} (h : Lowered d r)

include h

/-! ### Nodes -/

/-- A node is preserved exactly if both sides have its identifier, and relabelled if its labels
differ. -/
theorem mem_preservedNodes_iff {q : Preserved} : q ∈ r.preservedNodes ↔
    (∃ id, d.lhs.nodeIds[q.left]? = some id ∧ d.rhs.nodeIds[q.right]? = some id) ∧
      q.relabelled = decide (r.lhs.nodeLabel? q.left ≠ r.rhs.nodeLabel? q.right) := by
  rw [h.preservedNodes, RuleDecl.nodeEntries, Correspondence.nodeEntries, List.filterMap_map,
    List.mem_filterMap]
  simp only [Function.comp_apply, Correspondence.preserved?, ofIds]
  constructor
  · rintro ⟨id, -, hq⟩
    split at hq
    · next l r' hl hr =>
      obtain rfl := Option.some.inj hq
      exact ⟨⟨id, (idxOf?_eq_some_iff_getElem? h.leftIds).mp hl,
        (idxOf?_eq_some_iff_getElem? h.rightIds).mp hr⟩, rfl⟩
    · cases hq
  · rintro ⟨⟨id, hl, hr⟩, hrel⟩
    refine ⟨id, mem_allIds.mpr (Or.inl (List.mem_of_getElem? hl)), ?_⟩
    rw [(idxOf?_eq_some_iff_getElem? h.leftIds).mpr hl,
      (idxOf?_eq_some_iff_getElem? h.rightIds).mpr hr]
    simp only [← hrel]

/-- A node is added exactly if the right side has its identifier and the left side has not. -/
theorem mem_addedNodes_iff {j : Nat} : j ∈ r.addedNodes ↔
    ∃ id, d.rhs.nodeIds[j]? = some id ∧ id ∉ d.lhs.nodeIds := by
  rw [h.addedNodes, RuleDecl.nodeEntries, Correspondence.nodeEntries, List.filterMap_map,
    List.mem_filterMap]
  simp only [Function.comp_apply, Correspondence.added?, ofIds, ← List.idxOf?_eq_none_iff]
  constructor
  · rintro ⟨id, -, hj⟩
    split at hj
    · next r' hl hr =>
      obtain rfl := Option.some.inj hj
      exact ⟨id, (idxOf?_eq_some_iff_getElem? h.rightIds).mp hr, hl⟩
    · cases hj
  · rintro ⟨id, hr, hl⟩
    refine ⟨id, mem_allIds.mpr (Or.inr (List.mem_of_getElem? hr)), ?_⟩
    rw [(idxOf?_eq_some_iff_getElem? h.rightIds).mpr hr, hl]

/-! ### Edges -/

/-- An edge is preserved exactly with the left edge that is its partner when those of the edges
before it are taken, and relabelled if its labels differ. -/
theorem mem_preservedEdges_iff {q : Preserved} : q ∈ r.preservedEdges ↔
    (∃ e, d.rhs.edges[q.right]? = some e ∧
        IsPartner d.lhs.edges (takenBefore r.preservedEdges q.right) e q.left) ∧
      q.relabelled = decide (r.lhs.edgeLabel? q.left ≠ r.rhs.edgeLabel? q.right) := by
  obtain ⟨p, hp, heq, -⟩ := h.edges
  rw [heq, hp.mem_preserved_iff (Delta.pairwise_zipIdx d.rhs.edges), Delta.Chosen]
  simp only [Set.empty_union, List.mem_zipIdx_iff_getElem?]
  constructor
  · rintro ⟨e, he, hpartner, hrel⟩
    exact ⟨⟨e, he, hpartner⟩, hrel⟩
  · rintro ⟨⟨e, he, hpartner⟩, hrel⟩
    exact ⟨e, he, hpartner, hrel⟩

/-- No left edge is preserved twice. -/
theorem nodup_preservedEdges_left : (r.preservedEdges.map (·.left)).Nodup := by
  obtain ⟨p, hp, heq, -⟩ := h.edges
  exact heq ▸ hp.nodup_left

/-- Every added edge is one that the right side declares. -/
theorem exists_of_mem_addedEdges {A : AddedEdge} (hA : A ∈ r.addedEdges) :
    ∃ e k, d.rhs.edges[k]? = some e ∧ A.Realizes d.lhs.nodeIds d.rhs.nodeIds e k := by
  obtain ⟨p, -, -, hadded⟩ := h.edges
  obtain ⟨k, hk, rfl⟩ := List.mem_iff_getElem.mp hA
  obtain ⟨e, i, he, -, hr⟩ := hadded.get hk (hadded.length_eq ▸ hk)
  exact ⟨e, i, he, hr⟩

/-- The edges are paired, and the added edges are those without a partner, in their order. -/
theorem exists_paired :
    ∃ p, Paired r.lhs r.rhs d.lhs.edges ∅ d.rhs.edges.zipIdx p ∧ r.preservedEdges = p.preserved ∧
      r.addedEdges.map (·.index) = p.unpaired.filterMap (·.right) := by
  obtain ⟨p, hp, heq, hadded⟩ := h.edges
  refine ⟨p, hp, heq, ?_⟩
  generalize r.addedEdges = added at hadded
  generalize p.unpaired = unpaired at hadded
  induction hadded with
  | nil => rfl
  | cons hA _ ih =>
    obtain ⟨e, k, -, rfl, hr⟩ := hA
    rw [List.map_cons, ih, hr.index]
    rfl

/-- Every edge of the right side is preserved or added, and none is both or twice. -/
theorem perm_rightEdges :
    (r.preservedEdges.map (·.right) ++ r.addedEdges.map (·.index)).Perm
      (List.range d.rhs.edges.length) := by
  obtain ⟨p, hp, heq, hindex⟩ := h.exists_paired
  have hperm := hp.perm_right
  rw [List.zipIdx_map_snd, ← List.range_eq_range'] at hperm
  rw [hindex, heq]
  exact hperm

/-- The added edges come in the order of the right side. -/
theorem pairwise_addedEdges : (r.addedEdges.map (·.index)).Pairwise (· < ·) := by
  obtain ⟨p, hp, -, hindex⟩ := h.exists_paired
  have hsublist := hp.unpaired_sublist
  rw [List.zipIdx_map_snd, ← List.range_eq_range', ← hindex] at hsublist
  exact List.pairwise_lt_range.sublist hsublist

end Lowered

/-! ### An instance -/

/-- A rule that moves an edge to a new node, deletes a node, and marks another with the edge to
it. -/
def moveEdge : RuleDecl where
  name := "move"
  lhs := {
    nodes := [{ id := "a" }, { id := "b" }, { id := "c" }]
    edges := [{ id := "e", source := "a", target := "b" }, { source := "a", target := "c" }] }
  rhs := {
    nodes := [{ id := "d" }, { id := "c", label := ⟨.red, []⟩ }, { id := "a" }]
    edges :=
      [{ source := "a", target := "c", label := ⟨.red, []⟩ },
        { id := "e", source := "a", target := "d" }] }

/-- What `moveEdge` lowers to. -/
def moveEdgeRule : Rule where
  name := "move"
  vars := Variables.empty
  lhs := ⟨#[{}, {}, {}], #[⟨0, 1, {}⟩, ⟨0, 2, {}⟩]⟩
  rhs := ⟨#[{}, ⟨false, ⟨.red, []⟩⟩, {}], #[⟨2, 1, ⟨.red, []⟩⟩, ⟨2, 0, {}⟩]⟩
  delta := {
    preservedNodes := [⟨0, 2, false⟩, ⟨2, 1, true⟩]
    preservedEdges := [⟨1, 0, true⟩]
    deletedNodes := [1]
    addedNodes := [0]
    addedEdges := [⟨1, ⟨.left, 0⟩, ⟨.right, 0⟩⟩] }
  condition := none

theorem lower_moveEdge : moveEdge.lower = .ok moveEdgeRule := rfl

end GraphTransform
