import GraphTransform.Correspondence.Table
import GraphTransform.Lowering.Event

/-!
# Delta lists of nodes

Each correspondence of a node has an index in one graph or in both, which tells whether the node is
deleted, added or preserved. The lists follow the table, so nodes of the left side come in their
order, and then come those that only the right side has.
-/

namespace GraphTransform

namespace Correspondence

/-- The node as a preserved one, if both graphs have it. -/
def preserved? (lhs rhs : Graph) (c : Correspondence) : Option Preserved :=
  match c.left, c.right with
  | some l, some r => some ⟨l, r, lhs.nodeLabel? l ≠ rhs.nodeLabel? r⟩
  | _, _ => none

/-- The left index of the node, if only the left graph has it. -/
def deleted? (c : Correspondence) : Option Nat :=
  match c.left, c.right with
  | some l, none => some l
  | _, _ => none

/-- The right index of the node, if only the right graph has it. -/
def added? (c : Correspondence) : Option Nat :=
  match c.left, c.right with
  | none, some r => some r
  | _, _ => none

/-- The event that tells what becomes of the node. -/
def event? (c : Correspondence) : Option Lowering.Event :=
  match c.left, c.right with
  | some l, some r => some (.preservedNode c.id l r)
  | some l, none => some (.deletedNode c.id l)
  | none, some r => some (.addedNode c.id r)
  | none, none => none

end Correspondence

namespace Delta

/-- The delta lists of the nodes, for the graphs and the correspondences of the nodes. -/
def ofNodes (lhs rhs : Graph) (nodes : Correspondence.Table) : Delta :=
  let items := nodes.toList.map (·.2)
  { preservedNodes := items.filterMap (·.preserved? lhs rhs)
    deletedNodes := items.filterMap (·.deleted?)
    addedNodes := items.filterMap (·.added?) }

/-- The events that tell what becomes of the nodes. -/
def nodeEvents (nodes : Correspondence.Table) : List Lowering.Event :=
  nodes.toList.filterMap fun (_, c) => c.event?

end Delta

end GraphTransform
