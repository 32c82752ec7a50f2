import GraphTransform.Proofs.Partition

/-!
# Applying a rule to its left graph

The delta lists say how to make the right graph from the left one: drop the deleted items, relabel
the preserved ones, and add the new ones, with the ends of a new edge at the nodes that its anchors
denote. `Rule.applied` does so, with every item under a name of its own instead of a position. For
a rule that a declaration lowers to, nothing dangles (`Rule.Closed`), and the result is the right
graph up to the names (`ItemGraph.IsIso`).

That this holds for edges rests on what a partner is: it runs between the same nodes, so that its
ends are preserved together with those of the edge of the right side.
-/

namespace GraphTransform

/-- A name for an item: a kept one goes by its left index, an added one by its right index. -/
inductive Item where
  /-- An item that is kept. -/
  | kept (left : Nat)
  /-- An item that is added. -/
  | added (right : Nat)
deriving DecidableEq

/-- A node under a name, with its label, if the graph that the label is from has the node. -/
structure ItemNode where
  /-- The name. -/
  item : Item
  /-- The label. -/
  label : Option Label
deriving DecidableEq

/-- An edge under a name, between nodes under names, with its label, if the graph that the label is
from has the edge. -/
structure ItemEdge where
  /-- The name. -/
  item : Item
  /-- The name of the source. -/
  source : Item
  /-- The name of the target. -/
  target : Item
  /-- The label. -/
  label : Option Label
deriving DecidableEq

/-- A graph whose items go by names instead of positions. -/
structure ItemGraph where
  /-- The nodes. -/
  nodes : List ItemNode
  /-- The edges. -/
  edges : List ItemEdge
deriving DecidableEq

/-- The maps are an isomorphism onto the graph: each matches the items with the positions one to
one, and they respect the ends of edges and all labels. -/
structure ItemGraph.IsIso (H : ItemGraph) (G : Graph) (onNodes onEdges : Item → Option Nat) :
    Prop where
  /-- Each node has a position of its own, and no position is left out. -/
  nodes : (H.nodes.map fun n => onNodes n.item).Perm ((List.range G.nodes.size).map some)
  /-- Each edge has a position of its own, and no position is left out. -/
  edges : (H.edges.map fun e => onEdges e.item).Perm ((List.range G.edges.size).map some)
  /-- Nodes are mapped to nodes with their label. -/
  node : ∀ n ∈ H.nodes, ∃ j N, onNodes n.item = some j ∧ G.nodes[j]? = some N ∧
    n.label = some N.label
  /-- Edges are mapped to edges with their ends and label. -/
  edge : ∀ e ∈ H.edges, ∃ k E, onEdges e.item = some k ∧ G.edges[k]? = some E ∧
    onNodes e.source = some E.source ∧ onNodes e.target = some E.target ∧ e.label = some E.label

/-! ### Application -/

/-- The node that an anchor denotes. -/
def Anchor.item (a : Anchor) : Item :=
  match a.side with
  | .left => .kept a.index
  | .right => .added a.index

/-- The label of a kept item: that of the right graph if the item is preserved with another label,
and otherwise that of the left graph. -/
def keptLabel (preserved : List Preserved) (left right : Nat → Option Label) (l : Nat) :
    Option Label :=
  match preserved.find? (·.left = l) with
  | some q => if q.relabelled then right q.right else left l
  | none => left l

/-- The map of items that sends a preserved item to its right index, and an added item to itself. -/
def image? (preserved : List Preserved) : Item → Option Nat
  | .kept l => (preserved.find? (·.left = l)).map (·.right)
  | .added j => some j

namespace Rule

/-- The left indices of the nodes that are not dropped. -/
def keptNodes (r : Rule) : List Nat := (List.range r.lhs.nodes.size).filter (· ∉ r.deletedNodes)

/-- The edges that are not dropped, with their left indices. -/
def keptEdges (r : Rule) : List (Edge × Nat) :=
  r.lhs.edges.toList.zipIdx.filter (·.2 ∉ r.deletedEdges)

/-- The graph that applying the delta lists to the left graph yields. -/
def applied (r : Rule) : ItemGraph where
  nodes :=
    (r.keptNodes.map fun l =>
      ⟨.kept l, keptLabel r.preservedNodes r.lhs.nodeLabel? r.rhs.nodeLabel? l⟩) ++
      r.addedNodes.map fun j => ⟨.added j, r.rhs.nodeLabel? j⟩
  edges :=
    (r.keptEdges.map fun (E, l) =>
      ⟨.kept l, .kept E.source, .kept E.target,
        keptLabel r.preservedEdges r.lhs.edgeLabel? r.rhs.edgeLabel? l⟩) ++
      r.addedEdges.map fun A =>
        ⟨.added A.index, A.source.item, A.target.item, r.rhs.edgeLabel? A.index⟩

/-- The map of nodes from the result of the application to the right graph. -/
def nodeImage? (r : Rule) : Item → Option Nat := image? r.preservedNodes

/-- The map of edges from the result of the application to the right graph. -/
def edgeImage? (r : Rule) : Item → Option Nat := image? r.preservedEdges

/-- The anchor denotes a preserved or an added node, as its side says. -/
def Resolves (r : Rule) (a : Anchor) : Prop :=
  match a.side with
  | .left => a.index ∈ r.preservedNodes.map (·.left)
  | .right => a.index ∈ r.addedNodes

/-- No edge of the result of the application lacks an end. -/
structure Closed (r : Rule) : Prop where
  /-- No kept edge is incident to a dropped node. -/
  kept : ∀ E l, (E, l) ∈ r.keptEdges → E.source ∉ r.deletedNodes ∧ E.target ∉ r.deletedNodes
  /-- The anchors of added edges denote nodes. -/
  added : ∀ A ∈ r.addedEdges, r.Resolves A.source ∧ r.Resolves A.target

end Rule

/-! ### Preserved items -/

section Preserved

variable {ps : List Preserved} (hnodup : (ps.map (·.left)).Nodup) {q : Preserved} (hq : q ∈ ps)

include hnodup hq

/-- When no left index is listed twice, a preserved item is found by its own. -/
theorem find?_left_of_mem : ps.find? (·.left = q.left) = some q := by
  have hsome : (ps.find? (·.left = q.left)).isSome :=
    List.find?_isSome.mpr ⟨q, hq, by rw [decide_eq_true_eq]⟩
  obtain ⟨q', hq'⟩ := Option.isSome_iff_exists.mp hsome
  have hleft : q'.left = q.left := by simpa using List.find?_some hq'
  rw [hq', List.inj_on_of_nodup_map hnodup (List.mem_of_find?_eq_some hq') hq hleft]

theorem image?_kept : image? ps (.kept q.left) = some q.right := by
  rw [image?, find?_left_of_mem hnodup hq, Option.map_some]

/-- An item that is relabelled just if its labels differ has the label of the right graph
afterwards. -/
theorem keptLabel_eq {left right : Nat → Option Label}
    (hrel : q.relabelled = decide (left q.left ≠ right q.right)) :
    keptLabel ps left right q.left = right q.right := by
  rw [keptLabel, find?_left_of_mem hnodup hq]
  by_cases heq : left q.left = right q.right
  · simp [hrel, heq]
  · simp [hrel, heq]

end Preserved

/-- A kept item with an image is a preserved one. -/
theorem exists_of_image?_kept {ps : List Preserved} {l j : Nat} (h : image? ps (.kept l) = some j) :
    ∃ q ∈ ps, q.left = l ∧ q.right = j := by
  obtain ⟨q, hq, rfl⟩ := Option.map_eq_some_iff.mp h
  exact ⟨q, List.mem_of_find?_eq_some hq, by simpa using List.find?_some hq, rfl⟩

/-- The images of the preserved and the added items are the right indices. -/
theorem perm_image? {ps : List Preserved} (hnodup : (ps.map (·.left)).Nodup) {kept added : List Nat}
    {n : Nat} (hkept : kept.Perm (ps.map (·.left)))
    (hright : EachOnce n (ps.map (·.right) ++ added)) :
    (kept.map (fun l => image? ps (.kept l)) ++ added.map some).Perm ((List.range n).map some) := by
  have hps : (ps.map (·.left)).map (fun l => image? ps (.kept l)) =
      (ps.map (·.right)).map some := by
    rw [List.map_map, List.map_map]
    exact List.map_congr_left fun q hq => image?_kept hnodup hq
  have hperm := (hkept.map fun l => image? ps (.kept l)).append_right (added.map some)
  rw [hps, ← List.map_append] at hperm
  exact hperm.trans (hright.perm_range.map some)

/-- The left indices that are not dropped are those of preserved items. -/
theorem perm_kept {n : Nat} {preserved dropped : List Nat} (h : EachOnce n (preserved ++ dropped)) :
    ((List.range n).filter (· ∉ dropped)).Perm preserved := by
  obtain ⟨hnodup, hmem⟩ := eachOnce_iff.mp h
  obtain ⟨hpreserved, -, hdisjoint⟩ := List.nodup_append.mp hnodup
  refine (List.perm_ext_iff_of_nodup (List.nodup_range.filter _) hpreserved).mpr fun l => ?_
  rw [List.mem_filter, List.mem_range, decide_eq_true_eq, ← hmem, List.mem_append]
  constructor
  · rintro ⟨hl | hl, hdropped⟩
    · exact hl
    · exact absurd hl hdropped
  · intro hl
    exact ⟨Or.inl hl, fun hdropped => hdisjoint l hl l hdropped rfl⟩

namespace Lowered

variable {d : RuleDecl} {r : Rule} (h : Lowered d r)

include h

/-! ### Nodes -/

theorem nodup_preservedNodes_left : (r.preservedNodes.map (·.left)).Nodup :=
  (List.nodup_append.mp (eachOnce_iff.mp h.eachOnce_leftNodes).1).1

/-- A node of both sides is preserved. -/
theorem exists_preservedNode {id : String} {l j : Nat} (hl : d.lhs.nodeIds[l]? = some id)
    (hj : d.rhs.nodeIds[j]? = some id) : ∃ q ∈ r.preservedNodes, q.left = l ∧ q.right = j := by
  let q : Preserved := ⟨l, j, decide (r.lhs.nodeLabel? l ≠ r.rhs.nodeLabel? j)⟩
  exact ⟨q, h.mem_preservedNodes_iff.mpr ⟨⟨id, hl, hj⟩, rfl⟩, rfl, rfl⟩

/-- A node of both sides is mapped to its position on the right. -/
theorem nodeImage?_kept {id : String} {l j : Nat} (hl : d.lhs.nodeIds[l]? = some id)
    (hj : d.rhs.nodeIds[j]? = some id) : r.nodeImage? (.kept l) = some j := by
  obtain ⟨q, hq, rfl, rfl⟩ := h.exists_preservedNode hl hj
  exact image?_kept h.nodup_preservedNodes_left hq

/-- A node of the left graph with an image is not dropped. -/
theorem notMem_deletedNodes {l j : Nat} (hl : r.nodeImage? (.kept l) = some j) :
    l ∉ r.deletedNodes := by
  obtain ⟨q, hq, rfl, -⟩ := exists_of_image?_kept hl
  have hdisjoint := (List.nodup_append.mp (eachOnce_iff.mp h.eachOnce_leftNodes).1).2.2
  exact fun hmem => hdisjoint _ (List.mem_map_of_mem hq) _ hmem rfl

theorem perm_nodes : (r.applied.nodes.map fun n => r.nodeImage? n.item).Perm
    ((List.range r.rhs.nodes.size).map some) := by
  have hperm :=
    perm_image? h.nodup_preservedNodes_left (perm_kept h.eachOnce_leftNodes) h.eachOnce_rightNodes
  rw [Rule.applied, List.map_append, List.map_map, List.map_map]
  exact hperm

/-- An added node is one of the right graph. -/
theorem lt_of_mem_addedNodes {j : Nat} (hj : j ∈ r.addedNodes) : j < r.rhs.nodes.size :=
  (eachOnce_iff.mp h.eachOnce_rightNodes).2 j |>.mp (List.mem_append_right _ hj)

/-- A preserved node has its left index in the left graph. -/
theorem left_lt_of_mem_preservedNodes {q : Preserved} (hq : q ∈ r.preservedNodes) :
    q.left < r.lhs.nodes.size :=
  (eachOnce_iff.mp h.eachOnce_leftNodes).2 _ |>.mp (List.mem_append_left _ (List.mem_map_of_mem hq))

/-- A preserved node has its right index in the right graph. -/
theorem right_lt_of_mem_preservedNodes {q : Preserved} (hq : q ∈ r.preservedNodes) :
    q.right < r.rhs.nodes.size :=
  (eachOnce_iff.mp h.eachOnce_rightNodes).2 _ |>.mp
    (List.mem_append_left _ (List.mem_map_of_mem hq))

theorem applied_node {n : ItemNode} (hn : n ∈ r.applied.nodes) :
    ∃ j N, r.nodeImage? n.item = some j ∧ r.rhs.nodes[j]? = some N ∧ n.label = some N.label := by
  rcases List.mem_append.mp hn with hn | hn
  · obtain ⟨l, hl, rfl⟩ := List.mem_map.mp hn
    obtain ⟨q, hq, rfl⟩ := List.mem_map.mp ((perm_kept h.eachOnce_leftNodes).subset hl)
    have hlt := h.right_lt_of_mem_preservedNodes hq
    refine ⟨q.right, r.rhs.nodes[q.right], image?_kept h.nodup_preservedNodes_left hq,
      Array.getElem?_eq_getElem hlt, ?_⟩
    rw [keptLabel_eq h.nodup_preservedNodes_left hq (h.mem_preservedNodes_iff.mp hq).2,
      Graph.nodeLabel?, Array.getElem?_eq_getElem hlt, Option.map_some]
  · obtain ⟨j, hj, rfl⟩ := List.mem_map.mp hn
    have hlt := h.lt_of_mem_addedNodes hj
    refine ⟨j, r.rhs.nodes[j], rfl, Array.getElem?_eq_getElem hlt, ?_⟩
    rw [Graph.nodeLabel?, Array.getElem?_eq_getElem hlt, Option.map_some]

/-! ### Edges -/

theorem perm_keptEdges : (r.keptEdges.map (·.2)).Perm (r.preservedEdges.map (·.left)) := by
  have hfilter : r.keptEdges.map (·.2) =
      (List.range r.lhs.edges.size).filter (· ∉ r.deletedEdges) := by
    rw [← Array.length_toList, List.range_eq_range', ← List.zipIdx_map_snd 0 r.lhs.edges.toList,
      List.filter_map]
    rfl
  rw [hfilter]
  exact perm_kept h.eachOnce_leftEdges

theorem perm_edges : (r.applied.edges.map fun e => r.edgeImage? e.item).Perm
    ((List.range r.rhs.edges.size).map some) := by
  have hperm := perm_image? h.nodup_preservedEdges_left h.perm_keptEdges h.eachOnce_rightEdges
  rw [List.map_map, List.map_map] at hperm
  rw [Rule.applied, List.map_append, List.map_map, List.map_map]
  exact hperm

/-- An edge that is not dropped is preserved. -/
theorem exists_of_mem_keptEdges {E : Edge} {l : Nat} (hl : (E, l) ∈ r.keptEdges) :
    r.lhs.edges[l]? = some E ∧ ∃ q ∈ r.preservedEdges, q.left = l := by
  refine ⟨?_, List.mem_map.mp (h.perm_keptEdges.subset (List.mem_map_of_mem hl))⟩
  rw [← Array.getElem?_toList]
  exact List.mem_zipIdx_iff_getElem?.mp (List.mem_filter.mp hl).1

/-- The ends of a preserved edge of the left graph are mapped to those of the edge of the right
graph. -/
theorem exists_right_of_mem_preservedEdges {q : Preserved} (hq : q ∈ r.preservedEdges) {E : Edge}
    (hE : r.lhs.edges[q.left]? = some E) :
    ∃ E', r.rhs.edges[q.right]? = some E' ∧ r.nodeImage? (.kept E.source) = some E'.source ∧
      r.nodeImage? (.kept E.target) = some E'.target := by
  obtain ⟨⟨e, he, hpartner⟩, -⟩ := h.mem_preservedEdges_iff.mp hq
  obtain ⟨e', he', hsource, htarget⟩ := hpartner.sameEnds
  obtain ⟨e'', he'', hr⟩ := h.lhs.exists_decl hE
  obtain rfl := Option.some.inj (he'.symm.trans he'')
  obtain ⟨E', hE', hr'⟩ := h.rhs.exists_edge he
  have hs := hr.source
  have ht := hr.target
  rw [hsource, idxOf?_eq_some_iff_getElem? h.leftIds] at hs
  rw [htarget, idxOf?_eq_some_iff_getElem? h.leftIds] at ht
  exact ⟨E', hE', h.nodeImage?_kept hs ((idxOf?_eq_some_iff_getElem? h.rightIds).mp hr'.source),
    h.nodeImage?_kept ht ((idxOf?_eq_some_iff_getElem? h.rightIds).mp hr'.target)⟩

/-- The node that an anchor denotes is mapped to the position of the identifier that it stands
for. -/
theorem nodeImage?_item {a : Anchor} {id : String} (ha : a.Denotes d.lhs.nodeIds d.rhs.nodeIds id)
    {j : Nat} (hj : d.rhs.nodeIds.idxOf? id = some j) : r.nodeImage? a.item = some j := by
  obtain ⟨_ | _, i⟩ := a
  · exact h.nodeImage?_kept ((idxOf?_eq_some_iff_getElem? h.leftIds).mp ha.1)
      ((idxOf?_eq_some_iff_getElem? h.rightIds).mp hj)
  · obtain rfl := Option.some.inj (ha.1.symm.trans hj)
    rfl

theorem resolves_of_denotes {a : Anchor} {id : String}
    (ha : a.Denotes d.lhs.nodeIds d.rhs.nodeIds id) : r.Resolves a := by
  obtain ⟨_ | _, i⟩ := a
  · obtain ⟨j, hj⟩ := List.mem_iff_getElem?.mp ha.2
    obtain ⟨q, hq, hleft, -⟩ :=
      h.exists_preservedNode ((idxOf?_eq_some_iff_getElem? h.leftIds).mp ha.1) hj
    exact List.mem_map.mpr ⟨q, hq, hleft⟩
  · exact h.mem_addedNodes_iff.mpr ⟨id, (idxOf?_eq_some_iff_getElem? h.rightIds).mp ha.1, ha.2⟩

theorem applied_edge {e : ItemEdge} (he : e ∈ r.applied.edges) :
    ∃ k E, r.edgeImage? e.item = some k ∧ r.rhs.edges[k]? = some E ∧
      r.nodeImage? e.source = some E.source ∧
      r.nodeImage? e.target = some E.target ∧ e.label = some E.label := by
  rcases List.mem_append.mp he with he | he
  · obtain ⟨⟨E, l⟩, hl, rfl⟩ := List.mem_map.mp he
    obtain ⟨hE, q, hq, rfl⟩ := h.exists_of_mem_keptEdges hl
    obtain ⟨E', hE', hs, ht⟩ := h.exists_right_of_mem_preservedEdges hq hE
    refine ⟨q.right, E', image?_kept h.nodup_preservedEdges_left hq, hE', hs, ht, ?_⟩
    dsimp only
    rw [keptLabel_eq h.nodup_preservedEdges_left hq (h.mem_preservedEdges_iff.mp hq).2,
      Graph.edgeLabel?, hE', Option.map_some]
  · obtain ⟨A, hA, rfl⟩ := List.mem_map.mp he
    obtain ⟨e', k, he', hr⟩ := h.exists_of_mem_addedEdges hA
    obtain ⟨E, hE, hr'⟩ := h.rhs.exists_edge he'
    refine ⟨A.index, E, rfl, hr.index ▸ hE, h.nodeImage?_item hr.source hr'.source,
      h.nodeImage?_item hr.target hr'.target, ?_⟩
    rw [Graph.edgeLabel?, hr.index, hE, Option.map_some]

/-- Nothing dangles when the delta lists are applied. -/
theorem closed : r.Closed where
  kept E l hl := by
    obtain ⟨hE, q, hq, rfl⟩ := h.exists_of_mem_keptEdges hl
    obtain ⟨_, -, hs, ht⟩ := h.exists_right_of_mem_preservedEdges hq hE
    exact ⟨h.notMem_deletedNodes hs, h.notMem_deletedNodes ht⟩
  added A hA := by
    obtain ⟨_, _, -, hr⟩ := h.exists_of_mem_addedEdges hA
    exact ⟨h.resolves_of_denotes hr.source, h.resolves_of_denotes hr.target⟩

end Lowered

/-- **Applying a rule that a declaration lowers to takes its left graph to its right graph**:
nothing dangles, and what results is the right graph, with preserved items at their right
indices. -/
theorem applied_isIso_of_lower {d : RuleDecl} {r : Rule} (h : d.lower = .ok r) :
    r.Closed ∧ r.applied.IsIso r.rhs r.nodeImage? r.edgeImage? := by
  have hl := lowered_of_lower h
  refine ⟨hl.closed, ?_⟩
  exact {
    nodes := hl.perm_nodes
    edges := hl.perm_edges
    node := fun _ hn => hl.applied_node hn
    edge := fun _ he => hl.applied_edge he }

/-- The rule that moves an edge is an instance. -/
theorem applied_moveEdgeRule_isIso : moveEdge.lower = .ok moveEdgeRule ∧ moveEdgeRule.Closed ∧
    moveEdgeRule.applied.IsIso moveEdgeRule.rhs moveEdgeRule.nodeImage? moveEdgeRule.edgeImage? :=
  ⟨lower_moveEdge, applied_isIso_of_lower lower_moveEdge⟩

example : moveEdgeRule.applied.edges = [⟨.kept 1, .kept 0, .kept 2, some ⟨.red, []⟩⟩,
    ⟨.added 1, .kept 0, .added 0, some {}⟩] := by decide +kernel

end GraphTransform
