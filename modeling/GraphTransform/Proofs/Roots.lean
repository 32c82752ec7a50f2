import GraphTransform.Proofs.Predicate

/-!
# Roots

Nodes have a root flag besides their label, and the comparison of the sides does not look at it:
when the roots of a declaration are chosen anew, it lowers to the same rule but for the roots of its
graphs (`exists_lower_setRoots`). That is shown step by step, each for graphs that have everything
in common but for roots (`Graph.SameButRoots`).

So a predicate changes no item, end or label, but it may change roots: a preserved node is a root on
either side just as it is declared there (`changesAtMostRoots_of_isPredicate`).
-/

namespace GraphTransform

open Correspondence (Table nodeEntries)

/-- The side with its roots chosen anew. -/
def GraphDecl.setRoots (isRoot : String → Bool) (g : GraphDecl) : GraphDecl :=
  { g with nodes := g.nodes.map fun n => { n with root := isRoot n.id } }

/-- The declaration with the roots of both sides chosen anew. -/
def RuleDecl.setRoots (left right : String → Bool) (d : RuleDecl) : RuleDecl :=
  { d with lhs := d.lhs.setRoots left, rhs := d.rhs.setRoots right }

/-- The graphs have everything in common but for roots. -/
structure Graph.SameButRoots (G G' : Graph) : Prop where
  /-- The labels of the nodes. -/
  labels : G'.nodes.map (·.label) = G.nodes.map (·.label)
  /-- The edges. -/
  edges : G'.edges = G.edges

namespace Graph.SameButRoots

variable {G G' : Graph} (h : G.SameButRoots G')

include h

theorem nodeLabel?_eq : G'.nodeLabel? = G.nodeLabel? := by
  funext i
  rw [Graph.nodeLabel?, ← Array.getElem?_map, h.labels, Array.getElem?_map, Graph.nodeLabel?]

theorem edgeLabel?_eq : G'.edgeLabel? = G.edgeLabel? := by
  funext i
  rw [Graph.edgeLabel?, h.edges, Graph.edgeLabel?]

theorem toList_labels : G'.nodes.toList.map (·.label) = G.nodes.toList.map (·.label) := by
  rw [← Array.toList_map, h.labels, Array.toList_map]

end Graph.SameButRoots

namespace Delta

variable {lhs lhs' rhs rhs' : Graph} (hl : lhs.SameButRoots lhs') (hr : rhs.SameButRoots rhs')

include hl hr

theorem ofNodes_eq_of_sameButRoots (nodes : Table) :
    ofNodes lhs' rhs' nodes = ofNodes lhs rhs nodes := by
  have hpreserved (c : Correspondence) : c.preserved? lhs' rhs' = c.preserved? lhs rhs := by
    unfold Correspondence.preserved?
    rw [hl.nodeLabel?_eq, hr.nodeLabel?_eq]
  simp only [ofNodes, hpreserved]

theorem pairEdges_eq_of_sameButRoots (edges : Table) (list : List (EdgeDecl × Nat)) :
    pairEdges lhs' rhs' edges list = pairEdges lhs rhs edges list := by
  induction list generalizing edges with
  | nil => rfl
  | cons next rest ih =>
    obtain ⟨e, r⟩ := next
    simp only [pairEdges, ih, hl.edgeLabel?_eq, hr.edgeLabel?_eq]

theorem ofEdges_eq_of_sameButRoots (rhsEdges : List EdgeDecl) (edges nodes : Table) :
    ofEdges rhsEdges edges nodes lhs' rhs' = ofEdges rhsEdges edges nodes lhs rhs := by
  rw [ofEdges, pairEdges_eq_of_sameButRoots hl hr, ofEdges]

end Delta

namespace Lowering

theorem leftNodes_setRoots (isRoot : String → Bool) (g : GraphDecl) :
    leftNodes (g.setRoots isRoot).nodes.zipIdx = leftNodes g.nodes.zipIdx := by
  rw [GraphDecl.setRoots, List.zipIdx_map, leftNodes, List.foldl_map, leftNodes]
  rfl

theorem addRightNodes_setRoots (isRoot : String → Bool) (t : Table) (g : GraphDecl) :
    addRightNodes t (g.setRoots isRoot).nodes.zipIdx = addRightNodes t g.nodes.zipIdx := by
  rw [GraphDecl.setRoots, List.zipIdx_map, addRightNodes, List.foldl_map, addRightNodes]
  rfl

/-- The graph of a side is built alike but for roots. -/
theorem exists_withEdges_setRoots {t : Table} {ls rs : List String}
    (h : t.Holds (nodeEntries ls rs)) {side : Side} {g : GraphDecl} {G : Graph}
    (hG : withEdges t side (nodeGraph g.nodes) g.edges = .ok G) (isRoot : String → Bool) :
    ∃ G', G.SameButRoots G' ∧ withEdges t side (nodeGraph (g.setRoots isRoot).nodes)
      (g.setRoots isRoot).edges = .ok G' := by
  obtain ⟨new, hnew, rfl⟩ := (withEdges_eq_ok_iff h).mp hG
  refine ⟨_, ?_, (withEdges_eq_ok_iff h).mpr ⟨new, hnew, rfl⟩⟩
  rw [nodeGraph_eq, nodeGraph_eq]
  exact ⟨by simp [GraphDecl.setRoots], rfl⟩

theorem nodeIds_setRoots (isRoot : String → Bool) (g : GraphDecl) :
    (g.setRoots isRoot).nodeIds = g.nodeIds := by
  rw [GraphDecl.nodeIds, GraphDecl.setRoots, List.map_map, GraphDecl.nodeIds]
  rfl

theorem checkIds_setRoots (isRoot : String → Bool) (g : GraphDecl) :
    (g.setRoots isRoot).checkIds = g.checkIds := by
  rw [GraphDecl.checkIds, nodeIds_setRoots, GraphDecl.checkIds]
  rfl

/-- The labels that are checked are the same. -/
theorem checkLabels_of_sameButRoots {s : Sides} {lhs rhs : Graph} (hl : s.lhs.SameButRoots lhs)
    (hr : s.rhs.SameButRoots rhs) (h : s.scope.checkLabels s.labels = .ok ()) :
    ({ s with lhs, rhs } : Sides).scope.checkLabels
      ({ s with lhs, rhs } : Sides).labels = .ok () := by
  have hlabels : ({ s with lhs, rhs } : Sides).labels = s.labels := by
    simp only [Sides.labels, hl.toList_labels, hr.toList_labels, hl.edges, hr.edges]
  rw [hlabels]
  exact h

/-- The sides are built alike but for roots. -/
theorem exists_sides_setRoots {d : RuleDecl} {s : Sides} (hs : (sides d).result = .ok s)
    (left right : String → Bool) :
    ∃ lhs rhs, s.lhs.SameButRoots lhs ∧ s.rhs.SameButRoots rhs ∧
      (sides (d.setRoots left right)).result = .ok { s with lhs, rhs } := by
  have hsteps := sides_eq_ok_iff.mp hs
  obtain ⟨lhs, hl, hlhs⟩ := exists_withEdges_setRoots hsteps.leftNodes_holds hsteps.lhs left
  obtain ⟨rhs, hr, hrhs⟩ := exists_withEdges_setRoots hsteps.nodes_holds hsteps.rhs right
  refine ⟨lhs, rhs, hl, hr, sides_eq_ok_iff.mpr ?_⟩
  exact {
    vars := hsteps.vars
    leftIds := (checkIds_setRoots left d.lhs).trans hsteps.leftIds
    rightIds := (checkIds_setRoots right d.rhs).trans hsteps.rightIds
    lhs := (leftNodes_setRoots left d.lhs).symm ▸ hlhs
    leftEdges := hsteps.leftEdges
    nodes := by
      rw [RuleDecl.setRoots, leftNodes_setRoots, addRightNodes_setRoots]
      exact hsteps.nodes
    rhs := hrhs
    labels := checkLabels_of_sameButRoots hl hr hsteps.labels }

end Lowering

/-- **Roots do not enter the comparison of the sides**: when they are chosen anew, a declaration
lowers to the same rule but for the roots of its graphs. -/
theorem exists_lower_setRoots {d : RuleDecl} {r : Rule} (h : d.lower = .ok r)
    (left right : String → Bool) :
    ∃ lhs rhs, r.lhs.SameButRoots lhs ∧ r.rhs.SameButRoots rhs ∧
      (d.setRoots left right).lower = .ok { r with lhs, rhs } := by
  obtain ⟨s, hs, δ, hδ, hcondition, rfl⟩ := RuleDecl.lower_eq_ok_iff.mp h
  obtain ⟨lhs, rhs, hl, hr, hs'⟩ := Lowering.exists_sides_setRoots hs left right
  obtain ⟨preserved, added, remaining, hedges, rfl⟩ := Lowering.delta_eq_ok_iff.mp hδ
  refine ⟨lhs, rhs, hl, hr, RuleDecl.lower_eq_ok_iff.mpr
    ⟨_, hs', _, Lowering.delta_eq_ok_iff.mpr ?_, hcondition, rfl⟩⟩
  exact ⟨preserved, added, remaining, (Delta.ofEdges_eq_of_sameButRoots hl hr _ _ _).symm ▸ hedges,
    by rw [Delta.ofNodes_eq_of_sameButRoots hl hr]⟩

/-! ### Predicates and roots -/

/-- Applying the rule that `d` lowers to changes nothing of its left graph but, possibly, roots. -/
structure Rule.ChangesAtMostRoots (r : Rule) (d : RuleDecl) : Prop where
  /-- What results is the left graph: its items with their ends and labels. -/
  applied : r.applied = r.lhs.items
  /-- A preserved node is a root on either side just as it is declared there. -/
  roots : ∀ q ∈ r.preservedNodes, ∃ n n' N N', d.lhs.nodes[q.left]? = some n ∧
    d.rhs.nodes[q.right]? = some n' ∧
    n.id = n'.id ∧ r.lhs.nodes[q.left]? = some N ∧ r.rhs.nodes[q.right]? = some N' ∧
    N.root = n.root ∧ N'.root = n'.root
  /-- Other roots make no difference to the delta lists, and the rule is still a predicate. -/
  anyRoots : ∀ left right, ∃ r', (d.setRoots left right).lower = .ok r' ∧ r'.delta = r.delta ∧
    r'.flags.isPredicate = true

theorem Graph.Realizes.root_eq {G : Graph} {g : GraphDecl} (h : G.Realizes g) {i : Nat} {N : Node}
    (hN : G.nodes[i]? = some N) : ∃ n, g.nodes[i]? = some n ∧ N.root = n.root := by
  rw [← Array.getElem?_toList, h.nodes, List.getElem?_map, Option.map_eq_some_iff] at hN
  obtain ⟨n, hn, rfl⟩ := hN
  exact ⟨n, hn, rfl⟩

/-- **Applying a predicate changes at most roots.** -/
theorem changesAtMostRoots_of_isPredicate {d : RuleDecl} {r : Rule} (h : d.lower = .ok r)
    (hr : r.flags.isPredicate = true) : r.ChangesAtMostRoots d := by
  have hl := lowered_of_lower h
  refine ⟨(Rule.isPredicate_iff_changesNothing.mp hr).applied_eq, fun q hq => ?_,
    fun left right => ?_⟩
  · obtain ⟨N, N', hN, hN'⟩ := hl.exists_nodes_of_preserved hq
    obtain ⟨n, hn, hroot⟩ := hl.lhs.root_eq hN
    obtain ⟨n', hn', hroot'⟩ := hl.rhs.root_eq hN'
    obtain ⟨⟨id, hid, hid'⟩, -⟩ := hl.mem_preservedNodes_iff.mp hq
    rw [GraphDecl.nodeIds, List.getElem?_map, hn, Option.map_some, Option.some.injEq] at hid
    rw [GraphDecl.nodeIds, List.getElem?_map, hn', Option.map_some, Option.some.injEq] at hid'
    exact ⟨n, n', N, N', hn, hn', hid.trans hid'.symm, hN, hN', hroot, hroot'⟩
  · obtain ⟨lhs, rhs, hlhs, -, h'⟩ := exists_lower_setRoots h left right
    refine ⟨_, h', rfl, ?_⟩
    rw [Rule.flags, Flags.ofDelta, hlhs.edges]
    exact hr

/-- The rule that makes another node the root is an instance. -/
theorem changesAtMostRoots_moveRoot :
    moveRoot.lower = .ok moveRootRule ∧ moveRootRule.flags.isPredicate = true ∧
      moveRootRule.ChangesAtMostRoots moveRoot :=
  ⟨lower_moveRoot, rfl, changesAtMostRoots_of_isPredicate lower_moveRoot rfl⟩

/-- A predicate may change a root. -/
theorem exists_root_ne_moveRootRule :
    moveRoot.lower = .ok moveRootRule ∧ moveRootRule.flags.isPredicate = true ∧
      ∃ q ∈ moveRootRule.preservedNodes,
        ∃ N N', moveRootRule.lhs.nodes[q.left]? = some N ∧
          moveRootRule.rhs.nodes[q.right]? = some N' ∧ N.root ≠ N'.root :=
  ⟨lower_moveRoot, rfl, ⟨0, 1, false⟩, List.mem_cons_self, { root := true }, {}, rfl, rfl,
    by decide⟩

end GraphTransform
