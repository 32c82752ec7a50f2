import GraphTransform.Proofs.NodeTable
import Mathlib.Data.List.Forall2

/-!
# The graphs of the sides

A graph realizes the declaration of a side (`Graph.Realizes`) if its nodes and edges are the
declared ones, in order, with every end of an edge at the position of the node that it names.
The sides of a declaration are built exactly if each step of `BuildSteps` succeeds
(`sides_eq_ok_iff`). `Built` says what is known then: the identifiers are distinct, both graphs
realize their sides, the table of the nodes is `nodeEntries`, and every label has a type.
-/

namespace GraphTransform

open Correspondence

/-- The edge is the declared one: its ends are the positions of the nodes that it names. -/
structure Edge.Realizes (E : Edge) (ids : List String) (e : EdgeDecl) : Prop where
  /-- The source. -/
  source : ids.idxOf? e.source = some E.source
  /-- The target. -/
  target : ids.idxOf? e.target = some E.target
  /-- The label. -/
  label : E.label = e.label

/-- A declared edge is one edge. -/
theorem Edge.Realizes.unique {E E' : Edge} {ids : List String} {e : EdgeDecl} (h : E.Realizes ids e)
    (h' : E'.Realizes ids e) : E = E' := by
  have hsource := Option.some.inj (h.source.symm.trans h'.source)
  have htarget := Option.some.inj (h.target.symm.trans h'.target)
  have hlabel := h.label.trans h'.label.symm
  cases E
  cases E'
  rw [Edge.mk.injEq]
  exact ⟨hsource, htarget, hlabel⟩

/-- The graph has the declared nodes and edges of a side, in order. -/
structure Graph.Realizes (G : Graph) (g : GraphDecl) : Prop where
  /-- The nodes. -/
  nodes : G.nodes.toList = g.nodes.map fun n => ⟨n.root, n.label⟩
  /-- The edges. -/
  edges : List.Forall₂ (fun E e => E.Realizes g.nodeIds e) G.edges.toList g.edges

namespace Graph.Realizes

variable {G : Graph} {g : GraphDecl} (h : G.Realizes g)

include h

theorem size_nodes : G.nodes.size = g.nodeIds.length := by
  rw [← Array.length_toList, h.nodes, List.length_map, GraphDecl.nodeIds, List.length_map]

theorem size_edges : G.edges.size = g.edges.length := by
  rw [← Array.length_toList, h.edges.length_eq]

theorem nodeLabel? (i : Nat) : G.nodeLabel? i = g.nodes[i]?.map (·.label) := by
  rw [Graph.nodeLabel?, ← Array.getElem?_toList, h.nodes, List.getElem?_map, Option.map_map]
  rfl

/-- Every edge of the graph is a declared one. -/
theorem exists_decl {k : Nat} {E : Edge} (hE : G.edges[k]? = some E) :
    ∃ e, g.edges[k]? = some e ∧ E.Realizes g.nodeIds e := by
  obtain ⟨hlt, hget⟩ := Array.getElem?_eq_some_iff.mp hE
  have hlt' : k < g.edges.length := h.size_edges ▸ hlt
  refine ⟨_, List.getElem?_eq_getElem hlt', ?_⟩
  rw [← hget]
  exact h.edges.get hlt hlt'

/-- Every declared edge is one of the graph. -/
theorem exists_edge {k : Nat} {e : EdgeDecl} (he : g.edges[k]? = some e) :
    ∃ E, G.edges[k]? = some E ∧ E.Realizes g.nodeIds e := by
  obtain ⟨hlt, -⟩ := List.getElem?_eq_some_iff.mp he
  have hlt' : k < G.edges.size := h.size_edges ▸ hlt
  obtain ⟨e', he', hr⟩ := h.exists_decl (Array.getElem?_eq_getElem hlt')
  rw [he, Option.some.injEq] at he'
  exact ⟨_, Array.getElem?_eq_getElem hlt', he' ▸ hr⟩

theorem edgeLabel? (k : Nat) : G.edgeLabel? k = g.edges[k]?.map (·.label) := by
  rw [Graph.edgeLabel?]
  cases he : g.edges[k]? with
  | none =>
    have : G.edges[k]? = none := by
      rw [Array.getElem?_eq_none_iff, h.size_edges]
      exact List.getElem?_eq_none_iff.mp he
    rw [this]
    rfl
  | some e =>
    obtain ⟨E, hE, hr⟩ := h.exists_edge he
    rw [hE, Option.map_some, Option.map_some, hr.label]

/-- No other graph has the nodes and edges of the side. -/
theorem unique {G' : Graph} (h' : G'.Realizes g) : G = G' := by
  have hnodes := h.nodes.trans h'.nodes.symm
  have hedges := List.left_unique_forall₂' (fun _ _ _ hE hE' => hE.unique hE') h.edges h'.edges
  cases G
  cases G'
  exact congrArg₂ Graph.mk (Array.toList_inj.mp hnodes) (Array.toList_inj.mp hedges)

end Graph.Realizes

namespace Lowering

/-! ### Building a graph -/

theorem nodeGraph_eq (nodes : List NodeDecl) :
    nodeGraph nodes = ⟨(nodes.map fun n => ⟨n.root, n.label⟩).toArray, #[]⟩ := by
  induction nodes using List.reverseRecOn with
  | nil => rfl
  | append_singleton nodes n ih =>
    rw [nodeGraph, List.foldl_append, ← nodeGraph, ih]
    simp [Graph.addNode]

/-- An end of an edge is found at the position of the node on the side. -/
theorem endIndex_eq {t : Table} {ls rs : List String} (h : t.Holds (nodeEntries ls rs))
    (side : Side) (e : EdgeDecl) (node : String) :
    endIndex t side e node =
      match (sideIds ls rs side).idxOf? node with
      | some i => .ok i
      | none =>
        .error
          (if node ∈ ls ∨ node ∈ rs then .danglingEdge e.name node else .unknownItem node) := by
  rw [endIndex, h.lookup?, find?_nodeEntries]
  by_cases hmem : node ∈ ls ∨ node ∈ rs
  · cases hi : (sideIds ls rs side).idxOf? node <;> simp [hmem, index?_ofIds, hi]
  · have hnone : (sideIds ls rs side).idxOf? node = none := by
      rw [List.idxOf?_eq_none_iff]
      rw [not_or] at hmem
      cases side
      · exact hmem.1
      · exact hmem.2
    simp [hmem, hnone]

theorem endIndex_eq_ok_iff {t : Table} {ls rs : List String} (h : t.Holds (nodeEntries ls rs))
    (side : Side) (e : EdgeDecl) (node : String) (i : Nat) :
    endIndex t side e node = .ok i ↔ (sideIds ls rs side).idxOf? node = some i := by
  rw [endIndex_eq h]
  cases (sideIds ls rs side).idxOf? node <;> simp

/-- The edges of a side are added exactly if both ends of each are nodes of the side. -/
theorem withEdges_eq_ok_iff {t : Table} {ls rs : List String} (h : t.Holds (nodeEntries ls rs))
    {side : Side} {G G' : Graph} {es : List EdgeDecl} :
    withEdges t side G es = .ok G' ↔
      ∃ new, List.Forall₂ (fun E e => E.Realizes (sideIds ls rs side) e) new es ∧
      G' = { G with edges := G.edges ++ new.toArray } := by
  induction es generalizing G with
  | nil =>
    simp only [withEdges_nil, Except.ok.injEq, List.forall₂_nil_right_iff, exists_eq_left]
    simp [eq_comm]
  | cons e es ih =>
    simp only [withEdges_cons, bind_eq_ok_iff, endIndex_eq_ok_iff h, ih,
      List.forall₂_cons_right_iff]
    constructor
    · rintro ⟨source, hs, target, ht, new, hnew, rfl⟩
      refine ⟨⟨source, target, e.label⟩ :: new, ⟨_, new, ⟨hs, ht, rfl⟩, hnew, rfl⟩, ?_⟩
      simp [Graph.addEdge]
    · rintro ⟨_, ⟨E, new, hE, hnew, rfl⟩, rfl⟩
      refine ⟨E.source, hE.source, E.target, hE.target, new, hnew, ?_⟩
      simp [Graph.addEdge, ← hE.label]

/-- The graph of a side realizes it. -/
theorem realizes_of_withEdges {t : Table} {ls rs : List String} (h : t.Holds (nodeEntries ls rs))
    {side : Side} {g : GraphDecl} (hids : sideIds ls rs side = g.nodeIds) {G : Graph}
    (hok : withEdges t side (nodeGraph g.nodes) g.edges = .ok G) : G.Realizes g := by
  obtain ⟨new, hnew, rfl⟩ := (withEdges_eq_ok_iff h).mp hok
  rw [nodeGraph_eq]
  exact ⟨by simp, by simpa [hids] using hnew⟩

/-! ### Both sides -/

theorem checkIds_eq_ok_iff {g : GraphDecl} :
    g.checkIds = .ok () ↔ g.nodeIds.Nodup ∧ g.edgeIds.Nodup := by
  rw [GraphDecl.checkIds, bind_eq_ok_iff]
  constructor
  · rintro ⟨⟨⟩, hnodes, hedges⟩
    exact ⟨(distinctIds_eq_ok_iff.mp hnodes).1, (distinctIds_eq_ok_iff.mp hedges).1⟩
  · rintro ⟨hnodes, hedges⟩
    exact ⟨(), distinctIds_eq_ok_iff.mpr ⟨hnodes, by simp⟩,
      distinctIds_eq_ok_iff.mpr ⟨hedges, by simp⟩⟩

end Lowering

/-- The correspondences of the nodes of a rule. -/
def RuleDecl.nodeEntries (d : RuleDecl) : List Correspondence :=
  Correspondence.nodeEntries d.lhs.nodeIds d.rhs.nodeIds

/-- The correspondences of the edges of the left side. -/
def RuleDecl.leftEntries (d : RuleDecl) : List Correspondence :=
  d.lhs.edges.zipIdx.map fun (e, l) => e.correspondence .left l

namespace Lowering

/-- Each step that builds the sides of a declaration yields its part of `s`. -/
structure BuildSteps (d : RuleDecl) (s : Sides) : Prop where
  /-- The variables are declared. -/
  vars : Variables.empty.declareAll d.vars = .ok s.vars
  /-- The identifiers of the left side are distinct. -/
  leftIds : d.lhs.checkIds = .ok ()
  /-- The identifiers of the right side are distinct. -/
  rightIds : d.rhs.checkIds = .ok ()
  /-- The left graph is built. -/
  lhs : withEdges (leftNodes d.lhs.nodes.zipIdx) .left
    (nodeGraph d.lhs.nodes) d.lhs.edges = .ok s.lhs
  /-- The left edges are entered. -/
  leftEdges : s.leftEdges = Lowering.leftEdges d.lhs.edges.zipIdx
  /-- The nodes are entered. -/
  nodes : s.nodes = addRightNodes (leftNodes d.lhs.nodes.zipIdx) d.rhs.nodes.zipIdx
  /-- The right graph is built. -/
  rhs : withEdges s.nodes .right (nodeGraph d.rhs.nodes) d.rhs.edges = .ok s.rhs
  /-- The labels are checked. -/
  labels : s.scope.checkLabels s.labels = .ok ()

/-- The sides are built exactly if each step succeeds. -/
theorem sides_eq_ok_iff {d : RuleDecl} {s : Sides} : (sides d).result = .ok s ↔ BuildSteps d s := by
  simp only [sides, sidesBy, Traced.result_bind_eq_ok_iff, Traced.result_liftM, Traced.result_pure,
    Recorder.result_note, result_withEdgesBy, Except.ok.injEq]
  constructor
  · rintro ⟨vars, hvars, -, -, ⟨⟩, hleft, ⟨⟩, hright, lhs, hlhs, -, -, rhs, hrhs, -, -,
      ⟨⟩, hlabels, rfl⟩
    exact ⟨hvars, hleft, hright, hlhs, rfl, rfl, hrhs, hlabels⟩
  · obtain ⟨vars, nodes, leftEdges, lhs, rhs⟩ := s
    rintro ⟨hvars, hleft, hright, hlhs, rfl, rfl, hrhs, hlabels⟩
    exact ⟨vars, hvars, (), trivial, (), hleft, (), hright, lhs, hlhs, (), trivial, rhs, hrhs,
      (), trivial, (), hlabels, rfl⟩

namespace BuildSteps

variable {d : RuleDecl} {s : Sides} (h : BuildSteps d s)

include h

theorem leftNodes_holds : (leftNodes d.lhs.nodes.zipIdx).Holds (nodeEntries d.lhs.nodeIds []) :=
  Lowering.leftNodes_holds (checkIds_eq_ok_iff.mp h.leftIds).1

theorem nodes_holds : s.nodes.Holds d.nodeEntries :=
  h.nodes ▸ Lowering.nodes_holds (checkIds_eq_ok_iff.mp h.leftIds).1
    (checkIds_eq_ok_iff.mp h.rightIds).1

end BuildSteps

/-- What is known once both sides of a declaration are built. -/
structure Built (d : RuleDecl) (s : Sides) : Prop where
  /-- The variables are the declared ones. -/
  vars : Variables.empty.declareAll d.vars = .ok s.vars
  /-- The identifiers of the left nodes are distinct. -/
  leftIds : d.lhs.nodeIds.Nodup
  /-- The identifiers of the right nodes are distinct. -/
  rightIds : d.rhs.nodeIds.Nodup
  /-- The identifiers that left edges carry are distinct. -/
  leftEdgeIds : d.lhs.edgeIds.Nodup
  /-- The identifiers that right edges carry are distinct. -/
  rightEdgeIds : d.rhs.edgeIds.Nodup
  /-- The left graph realizes the left side. -/
  lhs : s.lhs.Realizes d.lhs
  /-- The right graph realizes the right side. -/
  rhs : s.rhs.Realizes d.rhs
  /-- The table of the nodes. -/
  nodes : s.nodes.Holds d.nodeEntries
  /-- The table of the left edges. -/
  leftEdges : s.leftEdges.Holds d.leftEntries
  /-- Every label has only atoms with a type. -/
  labels : s.scope.checkLabels s.labels = .ok ()

theorem leftEdges_holds (d : RuleDecl) : (leftEdges d.lhs.edges.zipIdx).Holds d.leftEntries := by
  have heq : leftEdges d.lhs.edges.zipIdx = d.leftEntries.foldl Table.insert Table.empty := by
    rw [leftEdges, RuleDecl.leftEntries, List.foldl_map]
  rw [heq]
  simpa using Table.holds_empty.foldl_insert d.leftEntries

theorem built_of_sides {d : RuleDecl} {s : Sides} (h : (sides d).result = .ok s) : Built d s := by
  have hsteps := sides_eq_ok_iff.mp h
  have hleft := checkIds_eq_ok_iff.mp hsteps.leftIds
  have hright := checkIds_eq_ok_iff.mp hsteps.rightIds
  have hnodes := hsteps.nodes_holds
  exact {
    vars := hsteps.vars
    leftIds := hleft.1
    rightIds := hright.1
    leftEdgeIds := hleft.2
    rightEdgeIds := hright.2
    lhs := realizes_of_withEdges hsteps.leftNodes_holds rfl hsteps.lhs
    rhs := realizes_of_withEdges hnodes rfl hsteps.rhs
    nodes := hnodes
    leftEdges := hsteps.leftEdges ▸ leftEdges_holds d
    labels := hsteps.labels }

end Lowering

end GraphTransform
