import GraphTransform.Decl
import GraphTransform.Delta.Nodes

/-!
# Delta lists of edges

The edges of the right side are paired with those of the left side one after the other. An edge
with an identifier looks for the first edge left with that name, an edge without one for the first
edge left between its ends; the edge found is its partner if it runs between the same nodes, and no
other edge can be paired with it afterwards. Edges without a partner are added, and the
correspondences that remain are those of deleted edges.
-/

namespace GraphTransform

open Correspondence (Table)
open Lowering (Event)

/-- The slot and the left index of the partner of an edge of the right side. -/
def EdgeDecl.partner? (e : EdgeDecl) (edges : Table) : Option (Nat × Nat) := do
  let slot ←
    match e.id with
    | some id => edges.findId? id
    | none => edges.findEnds? e.source e.target
  let c ← edges.get? slot
  let l ← c.left
  if c.connects e.source e.target then some (slot, l) else none

namespace Delta

/-- How the edges of the right side are paired. -/
structure Pairing where
  /-- The preserved edges. -/
  preserved : List Preserved
  /-- The correspondences of the edges without a partner. -/
  unpaired : List Correspondence
  /-- The correspondences of the left side that no edge is paired with. -/
  remaining : Table
  /-- The events. -/
  events : List Event

/-- Pair edges of the right side, given with their indices, with the edges in a table. -/
def pairEdges (lhs rhs : Graph) (edges : Table) : List (EdgeDecl × Nat) → Pairing
  | [] => ⟨[], [], edges, []⟩
  | (e, r) :: rest =>
    match e.partner? edges with
    | some (slot, l) =>
      let p := pairEdges lhs rhs (edges.erase slot) rest
      { p with
        preserved := ⟨l, r, lhs.edgeLabel? l ≠ rhs.edgeLabel? r⟩ :: p.preserved
        events := .preservedEdge e.name l r :: p.events }
    | none =>
      let p := pairEdges lhs rhs edges rest
      { p with unpaired := e.correspondence .right r :: p.unpaired }

/-- The end of an added edge at a node: a preserved node by its left index, an added one by its
right index. -/
def anchor (nodes : Table) (edge : Correspondence) (node : Option String) :
    Except DeclError Anchor :=
  match node with
  | none => .error (.unknownItem edge.id)
  | some node =>
    match nodes.lookup? node with
    | none => .error (.unknownItem node)
    | some c =>
      match c.left, c.right with
      | some l, some _ => .ok ⟨.left, l⟩
      | none, some r => .ok ⟨.right, r⟩
      | _, none => .error (.danglingEdge edge.id node)

/-- An edge of the right side only as an added edge. -/
def addedEdge (nodes : Table) (edge : Correspondence) : Except DeclError AddedEdge :=
  match edge.right with
  | none => .error (.unknownItem edge.id)
  | some index => do
    let source ← anchor nodes edge edge.source
    let target ← anchor nodes edge edge.target
    return ⟨index, source, target⟩

/-- Take the edges of the right side only out of a table, among those at the given slots. -/
def takeAdded (nodes edges : Table) : List Nat → Traced Event DeclError (List AddedEdge × Table)
  | [] => pure ([], edges)
  | slot :: rest =>
    match (edges.get? slot).filter (·.left.isNone) with
    | some c => do
      let e ← addedEdge nodes c
      Traced.emit (.addedEdge e)
      let (added, remaining) ← takeAdded nodes (edges.erase slot) rest
      return (e :: added, remaining)
    | none => takeAdded nodes edges rest

/-- The delta lists of the edges of the right side, with the correspondences of deleted edges. The
table is to hold the correspondences of the edges of the left side. -/
def ofEdges (rhsEdges : List EdgeDecl) (edges nodes : Table) (lhs rhs : Graph) :
    Traced Event DeclError (List Preserved × List AddedEdge × Table) := do
  let pairing := pairEdges lhs rhs edges rhsEdges.zipIdx
  Traced.emitAll pairing.events
  let all := pairing.unpaired.foldl Table.insert pairing.remaining
  let (added, remaining) ← takeAdded nodes all all.handles
  return (pairing.preserved, added, remaining)

end Delta

end GraphTransform
