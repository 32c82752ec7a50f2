import GraphTransform.Proofs.Application

/-!
# Predicates

A rule is a predicate if its delta lists change nothing: no item is relabelled, deleted or added
(`Rule.ChangesNothing`). Applying such a rule yields its left graph (`ChangesNothing.applied_eq`).
For a rule that a declaration lowers to, the flag tells exactly whether the pairs of preserved items
are an isomorphism from the left graph onto the right one (`isPredicate_iff_pairsAreIso`). That
rests on the partition of the items: when nothing is deleted or added, every item occurs in one
pair.
-/

namespace GraphTransform

/-! ### Rules that change nothing -/

/-- The delta lists delete, add and relabel nothing. -/
structure Rule.ChangesNothing (r : Rule) : Prop where
  /-- No preserved node is relabelled. -/
  nodeLabels : ∀ q ∈ r.preservedNodes, q.relabelled = false
  /-- No preserved edge is relabelled. -/
  edgeLabels : ∀ q ∈ r.preservedEdges, q.relabelled = false
  /-- No node is deleted. -/
  deletedNodes : r.deletedNodes = []
  /-- No node is added. -/
  addedNodes : r.addedNodes = []
  /-- No edge is deleted. -/
  deletedEdges : r.deletedEdges = []
  /-- No edge is added. -/
  addedEdges : r.addedEdges = []

theorem Rule.isPredicate_iff_changesNothing {r : Rule} :
    r.flags.isPredicate = true ↔ r.ChangesNothing := by
  have hdeleted : (List.range r.lhs.edges.size).any r.delta.deletesEdge = false ↔
      r.deletedEdges = [] := by
    rw [deletedEdges, List.filter_eq_nil_iff, List.any_eq_false]
  simp only [flags, Flags.ofDelta, Bool.and_eq_true, List.all_eq_true, Bool.not_eq_true',
    List.isEmpty_iff, hdeleted]
  constructor
  · rintro ⟨⟨⟨⟨⟨hnodes, hedges⟩, hdeletedNodes⟩, haddedNodes⟩, haddedEdges⟩, hdeletedEdges⟩
    exact ⟨hnodes, hedges, hdeletedNodes, haddedNodes, hdeletedEdges, haddedEdges⟩
  · intro h
    exact ⟨⟨⟨⟨⟨h.nodeLabels, h.edgeLabels⟩, h.deletedNodes⟩, h.addedNodes⟩, h.addedEdges⟩,
      h.deletedEdges⟩

/-- The left graph with every item under its name as a kept one. -/
def Graph.items (G : Graph) : ItemGraph where
  nodes := (List.range G.nodes.size).map fun l => ⟨.kept l, G.nodeLabel? l⟩
  edges := G.edges.toList.zipIdx.map fun (E, l) =>
    ⟨.kept l, .kept E.source, .kept E.target, G.edgeLabel? l⟩

/-- The label of an item stays if no preserved item is relabelled. -/
theorem keptLabel_of_unchanged {ps : List Preserved} (h : ∀ q ∈ ps, q.relabelled = false)
    (left right : Nat → Option Label) (l : Nat) : keptLabel ps left right l = left l := by
  rw [keptLabel]
  cases hq : ps.find? (·.left = l) with
  | none => rfl
  | some q => simp [h q (List.mem_of_find?_eq_some hq)]

/-- A rule that changes nothing yields its left graph. -/
theorem Rule.ChangesNothing.applied_eq {r : Rule} (h : r.ChangesNothing) :
    r.applied = r.lhs.items := by
  have hnodes : r.keptNodes = List.range r.lhs.nodes.size := by
    rw [keptNodes, h.deletedNodes]
    simp
  have hedges : r.keptEdges = r.lhs.edges.toList.zipIdx := by
    rw [keptEdges, h.deletedEdges]
    simp
  rw [applied, hnodes, hedges, h.addedNodes, h.addedEdges, Graph.items]
  simp only [keptLabel_of_unchanged h.nodeLabels, keptLabel_of_unchanged h.edgeLabels, List.map_nil,
    List.append_nil]

/-! ### The pairs as an isomorphism -/

/-- The left node at `l` is preserved as the right node at `j`. -/
def Rule.PairsNodes (r : Rule) (l j : Nat) : Prop :=
  ∃ q ∈ r.preservedNodes, q.left = l ∧ q.right = j

/-- The pairs of preserved items are an isomorphism from the left graph onto the right graph: each
item of either graph occurs in one pair, and the pairs respect the ends of edges and all labels. -/
structure Rule.PairsAreIso (r : Rule) : Prop where
  /-- Each left node occurs in one pair. -/
  leftNodes : EachOnce r.lhs.nodes.size (r.preservedNodes.map (·.left))
  /-- Each right node occurs in one pair. -/
  rightNodes : EachOnce r.rhs.nodes.size (r.preservedNodes.map (·.right))
  /-- Each left edge occurs in one pair. -/
  leftEdges : EachOnce r.lhs.edges.size (r.preservedEdges.map (·.left))
  /-- Each right edge occurs in one pair. -/
  rightEdges : EachOnce r.rhs.edges.size (r.preservedEdges.map (·.right))
  /-- The nodes of a pair have the same label. -/
  node : ∀ q ∈ r.preservedNodes, ∃ N N', r.lhs.nodes[q.left]? = some N ∧
    r.rhs.nodes[q.right]? = some N' ∧ N.label = N'.label
  /-- The edges of a pair have the same label, and their ends are pairs of nodes. -/
  edge : ∀ q ∈ r.preservedEdges, ∃ E E', r.lhs.edges[q.left]? = some E ∧
    r.rhs.edges[q.right]? = some E' ∧
    E.label = E'.label ∧ r.PairsNodes E.source E'.source ∧ r.PairsNodes E.target E'.target

/-- When the indices occur once in two lists together, they all occur in the first if the second is
empty, and only then. -/
theorem EachOnce.left_iff {n : Nat} {is js : List Nat} (h : EachOnce n (is ++ js)) :
    EachOnce n is ↔ js = [] := by
  constructor
  · intro his
    have hlength := h.perm_range.length_eq.trans his.perm_range.length_eq.symm
    rw [List.length_append] at hlength
    exact List.length_eq_zero_iff.mp (by omega)
  · rintro rfl
    simpa using h

namespace Lowered

variable {d : RuleDecl} {r : Rule} (h : Lowered d r)

include h

/-- A preserved node is one of both graphs. -/
theorem exists_nodes_of_preserved {q : Preserved} (hq : q ∈ r.preservedNodes) :
    ∃ N N', r.lhs.nodes[q.left]? = some N ∧ r.rhs.nodes[q.right]? = some N' :=
  ⟨_, _, Array.getElem?_eq_getElem (h.left_lt_of_mem_preservedNodes hq),
    Array.getElem?_eq_getElem (h.right_lt_of_mem_preservedNodes hq)⟩

/-- A preserved node is not relabelled exactly if its labels are the same. -/
theorem relabelled_node_iff {q : Preserved} (hq : q ∈ r.preservedNodes) {N N' : Node}
    (hN : r.lhs.nodes[q.left]? = some N) (hN' : r.rhs.nodes[q.right]? = some N') :
    q.relabelled = false ↔ N.label = N'.label := by
  rw [(h.mem_preservedNodes_iff.mp hq).2, Graph.nodeLabel?, Graph.nodeLabel?, hN, hN']
  simp

/-- A preserved edge is one of both graphs, and its ends are pairs of nodes. -/
theorem exists_edges_of_preserved {q : Preserved} (hq : q ∈ r.preservedEdges) :
    ∃ E E', r.lhs.edges[q.left]? = some E ∧ r.rhs.edges[q.right]? = some E' ∧
      r.PairsNodes E.source E'.source ∧ r.PairsNodes E.target E'.target := by
  have hE := Array.getElem?_eq_getElem (h.left_lt_of_mem_preservedEdges hq)
  obtain ⟨E', hE', hsource, htarget⟩ := h.exists_right_of_mem_preservedEdges hq hE
  exact ⟨_, E', hE, hE', exists_of_image?_kept hsource, exists_of_image?_kept htarget⟩

/-- A preserved edge is not relabelled exactly if its labels are the same. -/
theorem relabelled_edge_iff {q : Preserved} (hq : q ∈ r.preservedEdges) {E E' : Edge}
    (hE : r.lhs.edges[q.left]? = some E) (hE' : r.rhs.edges[q.right]? = some E') :
    q.relabelled = false ↔ E.label = E'.label := by
  rw [(h.mem_preservedEdges_iff.mp hq).2, Graph.edgeLabel?, Graph.edgeLabel?, hE, hE']
  simp

theorem pairsAreIso_of_changesNothing (hr : r.ChangesNothing) : r.PairsAreIso where
  leftNodes := h.eachOnce_leftNodes.left_iff.mpr hr.deletedNodes
  rightNodes := h.eachOnce_rightNodes.left_iff.mpr hr.addedNodes
  leftEdges := h.eachOnce_leftEdges.left_iff.mpr hr.deletedEdges
  rightEdges := h.eachOnce_rightEdges.left_iff.mpr (List.map_eq_nil_iff.mpr hr.addedEdges)
  node q hq := by
    obtain ⟨N, N', hN, hN'⟩ := h.exists_nodes_of_preserved hq
    exact ⟨N, N', hN, hN', (h.relabelled_node_iff hq hN hN').mp (hr.nodeLabels q hq)⟩
  edge q hq := by
    obtain ⟨E, E', hE, hE', hsource, htarget⟩ := h.exists_edges_of_preserved hq
    exact ⟨E, E', hE, hE', (h.relabelled_edge_iff hq hE hE').mp (hr.edgeLabels q hq),
      hsource, htarget⟩

theorem changesNothing_of_pairsAreIso (hr : r.PairsAreIso) : r.ChangesNothing where
  nodeLabels q hq := by
    obtain ⟨N, N', hN, hN', hlabel⟩ := hr.node q hq
    exact (h.relabelled_node_iff hq hN hN').mpr hlabel
  edgeLabels q hq := by
    obtain ⟨E, E', hE, hE', hlabel, -⟩ := hr.edge q hq
    exact (h.relabelled_edge_iff hq hE hE').mpr hlabel
  deletedNodes := h.eachOnce_leftNodes.left_iff.mp hr.leftNodes
  addedNodes := h.eachOnce_rightNodes.left_iff.mp hr.rightNodes
  deletedEdges := h.eachOnce_leftEdges.left_iff.mp hr.leftEdges
  addedEdges := List.map_eq_nil_iff.mp (h.eachOnce_rightEdges.left_iff.mp hr.rightEdges)

end Lowered

/-- **A rule that a declaration lowers to is a predicate exactly if its pairs are an isomorphism of
its graphs.** -/
theorem isPredicate_iff_pairsAreIso {d : RuleDecl} {r : Rule} (h : d.lower = .ok r) :
    r.flags.isPredicate = true ↔ r.PairsAreIso := by
  have hl := lowered_of_lower h
  rw [Rule.isPredicate_iff_changesNothing]
  exact ⟨hl.pairsAreIso_of_changesNothing, hl.changesNothing_of_pairsAreIso⟩

/-- A rule that lists the items of its left side in another order, and makes another node the
root. -/
def moveRoot : RuleDecl where
  name := "root"
  lhs := {
    nodes := [{ id := "a", root := true }, { id := "b" }]
    edges :=
      [{ id := "e", source := "a", target := "b" },
        { source := "b", target := "a", label := ⟨.red, []⟩ }] }
  rhs := {
    nodes := [{ id := "b", root := true }, { id := "a" }]
    edges :=
      [{ source := "b", target := "a", label := ⟨.red, []⟩ },
        { id := "e", source := "a", target := "b" }] }

/-- What `moveRoot` lowers to. -/
def moveRootRule : Rule where
  name := "root"
  vars := Variables.empty
  lhs := ⟨#[{ root := true }, {}], #[⟨0, 1, {}⟩, ⟨1, 0, ⟨.red, []⟩⟩]⟩
  rhs := ⟨#[{ root := true }, {}], #[⟨0, 1, ⟨.red, []⟩⟩, ⟨1, 0, {}⟩]⟩
  delta := {
    preservedNodes := [⟨0, 1, false⟩, ⟨1, 0, false⟩]
    preservedEdges := [⟨1, 0, false⟩, ⟨0, 1, false⟩] }
  condition := none

theorem lower_moveRoot : moveRoot.lower = .ok moveRootRule := rfl

/-- The rule that makes another node the root is an instance. -/
theorem pairsAreIso_moveRootRule :
    moveRoot.lower = .ok moveRootRule ∧ moveRootRule.flags.isPredicate = true ∧
      moveRootRule.PairsAreIso :=
  ⟨lower_moveRoot, rfl, (isPredicate_iff_pairsAreIso lower_moveRoot).mp rfl⟩

end GraphTransform
