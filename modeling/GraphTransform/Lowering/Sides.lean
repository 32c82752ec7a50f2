import GraphTransform.Correspondence.Table
import GraphTransform.Decl
import GraphTransform.Lowering.Event
import GraphTransform.Typing

/-!
# The sides of a declaration

The first half of lowering looks at each side of a declaration by itself: identifiers become
indices, which the correspondences of the nodes and of the left edges keep, and the labels of both
graphs are checked. It fails with the first error in the order of its steps.

The steps are written once, for any recorder (`sidesBy`). `sides` keeps the log; the recorder
changes what is left in the trace, and never the result (`result_sidesBy`).
-/

namespace GraphTransform

open Correspondence (Table)
open Lowering (Event)

namespace Lowering

variable {ω : Type}

/-- The graph of some nodes without edges. -/
def nodeGraph (nodes : List NodeDecl) : Graph :=
  nodes.foldl (fun g n => g.addNode ⟨n.root, n.label⟩) {}

/-- The correspondences of the nodes of the left side, given with their indices. -/
def leftNodes (nodes : List (NodeDecl × Nat)) : Table :=
  nodes.foldl (fun table (n, l) => table.insert (n.correspondence .left l)) Table.empty

/-- Enter a node of the right side: it gets its index in an existing correspondence, or a new
one. -/
def addRightNode (table : Table) (n : NodeDecl) (r : Nat) : Table :=
  match table.findId? n.id with
  | some slot =>
    match table.get? slot with
    | some c => table.setIndices slot c.left (some r)
    | none => table.insert (n.correspondence .right r)
  | none => table.insert (n.correspondence .right r)

/-- Enter the nodes of the right side, given with their indices. -/
def addRightNodes (table : Table) (nodes : List (NodeDecl × Nat)) : Table :=
  nodes.foldl (fun table (n, r) => addRightNode table n r) table

/-- The correspondences of the edges of the left side, given with their indices. -/
def leftEdges (edges : List (EdgeDecl × Nat)) : Table :=
  edges.foldl (fun table (e, l) => table.insert (e.correspondence .left l)) Table.empty

/-- The index on a side of a node at which the edge `e` ends. -/
def endIndex (nodes : Table) (side : Side) (e : EdgeDecl) (node : String) :
    Except DeclError Nat :=
  match nodes.lookup? node with
  | none => .error (.unknownItem node)
  | some c =>
    match c.index? side with
    | some i => .ok i
    | none => .error (.danglingEdge e.name node)

/-- The graph of a side with further edges, given the graph so far. Each edge is added as soon as
both of its ends are found. -/
def withEdgesBy (R : Recorder ω) (nodes : Table) (side : Side) (g : Graph) :
    List EdgeDecl → Traced ω DeclError Graph
  | [] => pure g
  | e :: rest => do
    let source ← endIndex nodes side e e.source
    let target ← endIndex nodes side e e.target
    let g ← R.addEdge g ⟨source, target, e.label⟩
    withEdgesBy R nodes side g rest

/-- The graph of a side with further edges, without what is recorded of it. -/
def withEdges (nodes : Table) (side : Side) (g : Graph) (edges : List EdgeDecl) :
    Except DeclError Graph :=
  (withEdgesBy .log nodes side g edges).result

/-- What is known of a declaration before its sides are compared. -/
structure Sides where
  /-- The variables. -/
  vars : Variables
  /-- The correspondences of the nodes of both sides. -/
  nodes : Table
  /-- The correspondences of the edges of the left side. -/
  leftEdges : Table
  /-- The graph of the left side. -/
  lhs : Graph
  /-- The graph of the right side. -/
  rhs : Graph

/-- The scope of the atoms of a rule. -/
def Sides.scope (s : Sides) : Scope where
  vars := s.vars
  isLeftNode n := (s.nodes.lookup? n).any (·.left.isSome)

/-- The labels of both graphs in the order in which they are checked. -/
def Sides.labels (s : Sides) : List Label :=
  s.lhs.nodes.toList.map (·.label) ++ s.rhs.nodes.toList.map (·.label) ++
    s.lhs.edges.toList.map (·.label) ++ s.rhs.edges.toList.map (·.label)

/-- Build both graphs and check their labels. -/
def sidesBy (R : Recorder ω) (d : RuleDecl) : Traced ω DeclError Sides := do
  let vars ← Variables.empty.declareAll d.vars
  R.note (.declared vars.count)
  d.lhs.checkIds
  d.rhs.checkIds
  let nodes := leftNodes d.lhs.nodes.zipIdx
  let lhs ← withEdgesBy R nodes .left (nodeGraph d.lhs.nodes) d.lhs.edges
  let leftEdges := leftEdges d.lhs.edges.zipIdx
  R.note (.built .left lhs.nodes.size lhs.edges.size)
  let nodes := addRightNodes nodes d.rhs.nodes.zipIdx
  let rhs ← withEdgesBy R nodes .right (nodeGraph d.rhs.nodes) d.rhs.edges
  R.note (.built .right rhs.nodes.size rhs.edges.size)
  let s : Sides := { vars, nodes, leftEdges, lhs, rhs }
  s.scope.checkLabels s.labels
  return s

/-- Build both graphs, check their labels and keep the log. -/
def sides (d : RuleDecl) : Traced Event DeclError Sides := sidesBy .log d

/-! ### Results and traces -/

theorem withEdges_nil (nodes : Table) (side : Side) (g : Graph) :
    withEdges nodes side g [] = .ok g := rfl

theorem withEdges_cons (nodes : Table) (side : Side) (g : Graph) (e : EdgeDecl)
    (rest : List EdgeDecl) :
    withEdges nodes side g (e :: rest) = (do
      let source ← endIndex nodes side e e.source
      let target ← endIndex nodes side e e.target
      withEdges nodes side (g.addEdge ⟨source, target, e.label⟩) rest) := by
  simp only [withEdges, withEdgesBy, Traced.result_bind, Traced.result_liftM,
    Recorder.result_addEdge]
  rfl

/-- The recorder does not change the graph. -/
@[simp] theorem result_withEdgesBy (R : Recorder ω) (nodes : Table) (side : Side) (g : Graph)
    (edges : List EdgeDecl) :
    (withEdgesBy R nodes side g edges).result = withEdges nodes side g edges := by
  induction edges generalizing g with
  | nil => rfl
  | cons e rest ih =>
    simp only [withEdgesBy, withEdges_cons, Traced.result_bind, Traced.result_liftM,
      Recorder.result_addEdge, ih]
    rfl

/-- The loop leaves nothing in the log. -/
@[simp] theorem trace_withEdgesBy_log (nodes : Table) (side : Side) (g : Graph)
    (edges : List EdgeDecl) : (withEdgesBy .log nodes side g edges).trace = [] := by
  induction edges generalizing g with
  | nil => rfl
  | cons e rest ih =>
    exact Traced.trace_bind_eq fun _ => Traced.trace_bind_eq fun _ =>
      Traced.trace_bind_eq fun _ => ih _

/-- The recorder does not change the sides. -/
@[simp] theorem result_sidesBy (R : Recorder ω) (d : RuleDecl) :
    (sidesBy R d).result = (sides d).result := by
  simp only [sides, sidesBy, Traced.result_bind, Traced.result_liftM, Traced.result_pure,
    Recorder.result_note, result_withEdgesBy]

end Lowering

end GraphTransform
