import GraphTransform.Proofs.Lowered

/-!
# Calls that add an edge

An edge may only be added between nodes that the graph has already. Lowering adds the edges of each
side after all of its nodes, at the indices that the table of the nodes has for that side, so every
call meets this condition, also if a later step of lowering fails.

Lowering takes a recorder, and one of them keeps the calls (`Lowering.Recorder.calls`): the trace
that it leaves are the calls up to where lowering ends (`RuleDecl.edgeCalls`). The loop over the
edges of a side makes a call for every edge that it gets to (`mem_trace_withEdgesBy_iff`). The graph
has one node for each identifier of that side then, as it had before the loop, so an index that is
found for the side is in range (`inRange_of_mem_withEdgesBy`).

In range is not yet right. `RuleDecl.addsEdgesInRange` says as well that the graphs of the rule are
the declared ones, each end of an edge at the only position of its node on the same side.
-/

namespace GraphTransform

open Correspondence

/-! ### Statements -/

/-- A call that adds an edge to a graph. -/
structure EdgeCall where
  /-- The graph so far. -/
  graph : Graph
  /-- The new edge. -/
  edge : Edge

/-- Both ends of the new edge are nodes that the graph has. -/
structure EdgeCall.InRange (c : EdgeCall) : Prop where
  /-- The source. -/
  source : c.edge.source < c.graph.nodes.size
  /-- The target. -/
  target : c.edge.target < c.graph.nodes.size

/-- The calls that add an edge: they are kept, and of the events nothing. -/
def Lowering.Recorder.calls : Lowering.Recorder EdgeCall where
  event _ := []
  edge g e := [⟨g, e⟩]

/-- The calls that lowering makes to add edges, up to where it fails, if it does. -/
def RuleDecl.edgeCalls (d : RuleDecl) : List EdgeCall := (Lowering.stepsBy .calls d).trace

/-- The identifier is at this position and at no other. -/
def OnlyPosition (ids : List String) (id : String) (i : Nat) : Prop :=
  ∀ j, ids[j]? = some id ↔ j = i

/-- The graph has the declared nodes and edges of a side, in order, with every end of an edge at the
only position of the node that it names. -/
structure Graph.IsDeclared (G : Graph) (g : GraphDecl) : Prop where
  /-- The nodes. -/
  nodes : G.nodes.toList = g.nodes.map fun n => ⟨n.root, n.label⟩
  /-- The edges. -/
  edges : List.Forall₂ (fun E e => E.label = e.label ∧ OnlyPosition g.nodeIds e.source E.source ∧
    OnlyPosition g.nodeIds e.target E.target) G.edges.toList g.edges

/-- Lowering adds edges in range, and its graphs are the declared ones. -/
structure RuleDecl.AddsEdgesInRange (d : RuleDecl) : Prop where
  /-- Recording the calls changes nothing. -/
  result : (Lowering.stepsBy .calls d).result = (Lowering.steps d).result
  /-- Each call is in range, whether or not lowering succeeds. -/
  inRange : ∀ c ∈ d.edgeCalls, c.InRange
  /-- The calls for a rule add the edges of its graphs. -/
  edges : ∀ r, d.lower = .ok r → d.edgeCalls.map (·.edge) = r.lhs.edges.toList ++ r.rhs.edges.toList
  /-- The graphs of a rule are those of the sides. -/
  graphs : ∀ r, d.lower = .ok r → r.lhs.IsDeclared d.lhs ∧ r.rhs.IsDeclared d.rhs

namespace Lowering

/-! ### Calls are in range -/

theorem size_nodes_nodeGraph (nodes : List NodeDecl) :
    (nodeGraph nodes).nodes.size = (nodes.map (·.id)).length := by
  rw [nodeGraph_eq, List.size_toArray, List.length_map, List.length_map]

/-- An index that is found for the end of an edge is a position on the side. -/
theorem lt_of_endIndex {t : Table} {ls rs : List String} (h : t.Holds (nodeEntries ls rs))
    {side : Side} {e : EdgeDecl} {node : String} {i : Nat} (hi : endIndex t side e node = .ok i) :
    i < (sideIds ls rs side).length :=
  (List.idxOf?_eq_some_iff.mp ((endIndex_eq_ok_iff h side e node i).mp hi)).1

/-- **The loop makes a call for every edge that it gets to**, with the graph of the edges before it,
if both ends are found. -/
theorem mem_trace_withEdgesBy_iff {t : Table} {side : Side} {G : Graph} {es : List EdgeDecl}
    {c : EdgeCall} :
    c ∈ (withEdgesBy .calls t side G es).trace ↔ ∃ before e rest, es = before ++ e :: rest ∧
      withEdges t side G before = .ok c.graph ∧ endIndex t side e e.source = .ok c.edge.source ∧
      endIndex t side e e.target = .ok c.edge.target ∧ c.edge.label = e.label := by
  induction es generalizing G with
  | nil => simp [withEdgesBy]
  | cons e es ih =>
    simp only [withEdgesBy, Traced.mem_trace_bind, Traced.trace_liftM, Traced.result_liftM,
      List.not_mem_nil, false_or, Recorder.trace_addEdge, Recorder.result_addEdge,
      Except.ok.injEq, exists_eq_left', ih]
    constructor
    · rintro ⟨source, hsource, target, htarget, hcall | ⟨before, e', rest, rfl, hbefore, hends⟩⟩
      · obtain rfl := List.mem_singleton.mp hcall
        exact ⟨[], e, es, rfl, rfl, hsource, htarget, rfl⟩
      · refine ⟨e :: before, e', rest, rfl, ?_, hends⟩
        rw [withEdges_cons, hsource, htarget]
        exact hbefore
    · rintro ⟨before, e', rest, heq, hbefore, hsource, htarget, hlabel⟩
      cases before with
      | nil =>
        obtain ⟨rfl, rfl⟩ := List.cons.inj heq
        obtain rfl := Except.ok.inj hbefore
        obtain ⟨graph, edge⟩ := c
        refine ⟨_, hsource, _, htarget, Or.inl (List.mem_singleton.mpr ?_)⟩
        rw [← hlabel]
      | cons head before =>
        obtain ⟨rfl, rfl⟩ := List.cons.inj heq
        rw [withEdges_cons, bind_eq_ok_iff] at hbefore
        obtain ⟨s, hs, hbefore⟩ := hbefore
        obtain ⟨t', ht, hbefore⟩ := bind_eq_ok_iff.mp hbefore
        exact ⟨s, hs, t', ht, Or.inr ⟨before, e', rest, rfl, hbefore, hsource, htarget, hlabel⟩⟩

/-- **Every call of the loop is in range**, if the graph has a node for each identifier of the side.
The edges before the new one changed no node. -/
theorem inRange_of_mem_withEdgesBy {t : Table} {ls rs : List String}
    (h : t.Holds (nodeEntries ls rs)) {side : Side} {G : Graph}
    (hsize : G.nodes.size = (sideIds ls rs side).length) {es : List EdgeDecl} {c : EdgeCall}
    (hc : c ∈ (withEdgesBy .calls t side G es).trace) : c.InRange := by
  obtain ⟨before, e, rest, -, hbefore, hsource, htarget, -⟩ := mem_trace_withEdgesBy_iff.mp hc
  obtain ⟨new, -, hgraph⟩ := (withEdges_eq_ok_iff h).mp hbefore
  have hnodes : c.graph.nodes.size = (sideIds ls rs side).length := by rw [hgraph, hsize]
  exact ⟨hnodes ▸ lt_of_endIndex h hsource, hnodes ▸ lt_of_endIndex h htarget⟩

theorem inRange_of_mem_sidesBy {d : RuleDecl} {c : EdgeCall}
    (hc : c ∈ (sidesBy .calls d).trace) : c.InRange := by
  simp only [sidesBy, Traced.mem_trace_bind, Traced.trace_liftM, Traced.result_liftM,
    Traced.trace_pure, Recorder.trace_note, Recorder.result_note, Recorder.calls,
    List.not_mem_nil, false_or, or_false, and_false, exists_false] at hc
  obtain ⟨vars, -, -, -, ⟨⟩, hleft, ⟨⟩, hright, hcalls⟩ := hc
  rw [checkIds_eq_ok_iff] at hleft hright
  rcases hcalls with hcalls | ⟨lhs, -, -, -, hcalls⟩
  · exact inRange_of_mem_withEdgesBy (leftNodes_holds hleft.1)
      (size_nodes_nodeGraph d.lhs.nodes) hcalls
  · exact inRange_of_mem_withEdgesBy (nodes_holds hleft.1 hright.1)
      (size_nodes_nodeGraph d.rhs.nodes) hcalls

/-! ### Calls add the edges -/

/-- Only building the sides makes calls. -/
theorem trace_stepsBy_calls (d : RuleDecl) :
    (stepsBy .calls d).trace = (sidesBy .calls d).trace := by
  have hrelay {α : Type} (x : Traced Event DeclError α) : (Recorder.calls.relay x).trace = [] :=
    List.flatMap_eq_nil_iff.mpr fun _ _ => rfl
  rw [stepsBy, Traced.trace_bind_of_ok rfl]
  refine Traced.trace_bind_eq fun s => ?_
  rw [Traced.trace_bind_eq fun δ => ?_, hrelay]
  rw [Traced.trace_bind_eq fun _ => rfl, hrelay]

/-- The calls of the loop add the edges that the graph has more than before. -/
theorem toList_edges_of_withEdgesBy {t : Table} {side : Side} {G G' : Graph} {es : List EdgeDecl}
    (h : withEdges t side G es = .ok G') :
    G'.edges.toList = G.edges.toList ++ (withEdgesBy .calls t side G es).trace.map (·.edge) := by
  induction es generalizing G with
  | nil =>
    obtain rfl := Except.ok.inj h
    exact (List.append_nil _).symm
  | cons e es ih =>
    rw [withEdges_cons, bind_eq_ok_iff] at h
    obtain ⟨source, hsource, h⟩ := h
    obtain ⟨target, htarget, h⟩ := bind_eq_ok_iff.mp h
    rw [withEdgesBy, Traced.trace_bind_of_ok hsource, Traced.trace_bind_of_ok htarget,
      Traced.trace_bind_of_ok (Recorder.result_addEdge _ _ _), ih h]
    simp [Graph.addEdge, Recorder.calls]

/-- Once the sides are built, the calls are those of both loops. -/
theorem trace_sidesBy_calls {d : RuleDecl} {s : Sides} (h : BuildSteps d s) :
    (sidesBy .calls d).trace =
      (withEdgesBy .calls (leftNodes d.lhs.nodes.zipIdx) .left (nodeGraph d.lhs.nodes)
        d.lhs.edges).trace ++
      (withEdgesBy .calls s.nodes .right (nodeGraph d.rhs.nodes) d.rhs.edges).trace := by
  have hlhs := (result_withEdgesBy Recorder.calls _ _ _ _).trans h.lhs
  rw [sidesBy, Traced.trace_bind_of_ok h.vars, Traced.trace_bind_of_ok rfl,
    Traced.trace_bind_of_ok h.leftIds, Traced.trace_bind_of_ok h.rightIds,
    Traced.trace_bind_of_ok hlhs, Traced.trace_bind_of_ok rfl,
    Traced.trace_bind_eq fun _ => Traced.trace_bind_eq fun _ => Traced.trace_bind_eq fun _ => rfl,
    h.nodes]
  rfl

/-- They have added the edges of the left graph, and then those of the right graph. -/
theorem map_edge_trace_sidesBy {d : RuleDecl} {s : Sides} (h : BuildSteps d s) :
    (sidesBy .calls d).trace.map (·.edge) = s.lhs.edges.toList ++ s.rhs.edges.toList := by
  have hedges (nodes : List NodeDecl) : (nodeGraph nodes).edges.toList = [] := by rw [nodeGraph_eq]
  have hleft := toList_edges_of_withEdgesBy h.lhs
  have hright := toList_edges_of_withEdgesBy h.rhs
  rw [hedges, List.nil_append] at hleft hright
  rw [trace_sidesBy_calls h, List.map_append, hleft, hright]

end Lowering

/-! ### Declared graphs -/

theorem onlyPosition_of_idxOf? {ids : List String} (h : ids.Nodup) {id : String} {i : Nat}
    (hi : ids.idxOf? id = some i) : OnlyPosition ids id i := by
  intro j
  rw [← idxOf?_eq_some_iff_getElem? h, hi, Option.some.injEq, eq_comm]

/-- A graph that realizes a side with distinct identifiers is the declared one. -/
theorem Graph.Realizes.isDeclared {G : Graph} {g : GraphDecl} (h : G.Realizes g)
    (hids : g.nodeIds.Nodup) : G.IsDeclared g where
  nodes := h.nodes
  edges := h.edges.imp fun _ _ hE =>
    ⟨hE.label, onlyPosition_of_idxOf? hids hE.source, onlyPosition_of_idxOf? hids hE.target⟩

/-- **Edges are only added between nodes that the graph has, and end in the right ones.** -/
theorem RuleDecl.addsEdgesInRange (d : RuleDecl) : d.AddsEdgesInRange where
  result := Lowering.result_stepsBy .calls d
  inRange c hc := by
    rw [edgeCalls, Lowering.trace_stepsBy_calls] at hc
    exact Lowering.inRange_of_mem_sidesBy hc
  edges r h := by
    obtain ⟨s, hs, δ, -, -, rfl⟩ := RuleDecl.lower_eq_ok_iff.mp h
    rw [edgeCalls, Lowering.trace_stepsBy_calls]
    exact Lowering.map_edge_trace_sidesBy (Lowering.sides_eq_ok_iff.mp hs)
  graphs r h := by
    have hl := lowered_of_lower h
    exact ⟨hl.lhs.isDeclared hl.leftIds, hl.rhs.isDeclared hl.rightIds⟩

/-- The right edge ends in a node of the left side only: lowering fails after the calls for the
edges before it. -/
example : RuleDecl.edgeCalls {
      name := "r"
      lhs := {
        nodes := [{ id := "a" }, { id := "b" }]
        edges := [{ source := "a", target := "b" }] }
      rhs := {
        nodes := [{ id := "b" }]
        edges := [{ source := "b", target := "b" }, { source := "a", target := "b" }] } } =
    [⟨⟨#[{}, {}], #[]⟩, ⟨0, 1, {}⟩⟩, ⟨⟨#[{}], #[]⟩, ⟨0, 0, {}⟩⟩] := rfl

/-- The rule that moves an edge is an instance. -/
theorem RuleDecl.addsEdgesInRange_moveEdge :
    moveEdge.lower = .ok moveEdgeRule ∧ moveEdge.edgeCalls.length = 4 ∧
      (∀ c ∈ moveEdge.edgeCalls, c.InRange) ∧ moveEdgeRule.lhs.IsDeclared moveEdge.lhs ∧
      moveEdgeRule.rhs.IsDeclared moveEdge.rhs :=
  ⟨lower_moveEdge, rfl, moveEdge.addsEdgesInRange.inRange,
    moveEdge.addsEdgesInRange.graphs _ lower_moveEdge⟩

end GraphTransform
