import GraphTransform.Condition.Eval
import GraphTransform.Delta

/-!
# Rules

A rule as the matching engine works with it: the two graphs, the delta lists between them and the
condition. Its flags sum up what applying it does to the host graph.
-/

namespace GraphTransform

/-- What applying a rule does to the host graph. -/
structure Flags where
  /-- The rule adds, deletes and relabels nothing. -/
  isPredicate : Bool
  /-- The rule deletes some node. -/
  deletesNodes : Bool
  /-- Some node of the left graph is a root. -/
  isRooted : Bool
deriving DecidableEq

/-- The flags of a rule with the given delta lists and left graph. -/
def Flags.ofDelta (δ : Delta) (lhs : Graph) : Flags where
  isPredicate :=
    δ.preservedNodes.all (!·.relabelled) && δ.preservedEdges.all (!·.relabelled) &&
      δ.deletedNodes.isEmpty && δ.addedNodes.isEmpty && δ.addedEdges.isEmpty &&
      !(List.range lhs.edges.size).any δ.deletesEdge
  deletesNodes := !δ.deletedNodes.isEmpty
  isRooted := lhs.hasRoot

/-- A graph transformation rule. -/
structure Rule where
  /-- The name. -/
  name : String
  /-- The variables. -/
  vars : Variables
  /-- The graph that is matched. -/
  lhs : Graph
  /-- The graph that takes its place. -/
  rhs : Graph
  /-- What is preserved, deleted and added. -/
  delta : Delta
  /-- The condition, if there is one. -/
  condition : Option Condition
deriving BEq

namespace Rule

/-- What applying the rule does to the host graph. -/
def flags (r : Rule) : Flags := Flags.ofDelta r.delta r.lhs

/-- The nodes of both graphs. -/
def preservedNodes (r : Rule) : List Preserved := r.delta.preservedNodes

/-- The edges of both graphs. -/
def preservedEdges (r : Rule) : List Preserved := r.delta.preservedEdges

/-- The left indices of the deleted nodes. -/
def deletedNodes (r : Rule) : List Nat := r.delta.deletedNodes

/-- The right indices of the added nodes. -/
def addedNodes (r : Rule) : List Nat := r.delta.addedNodes

/-- The added edges. -/
def addedEdges (r : Rule) : List AddedEdge := r.delta.addedEdges

/-- The left indices of the deleted edges: of all that are not preserved. -/
def deletedEdges (r : Rule) : List Nat := (List.range r.lhs.edges.size).filter r.delta.deletesEdge

/-- Whether an index is that of a deleted edge. -/
def isEdgeDeleted (r : Rule) (i : Nat) : Bool := i < r.lhs.edges.size && r.delta.deletesEdge i

/-- Whether the condition holds under a match; without a condition every match is admitted. -/
def evalCondition (r : Rule) (m : Match) : Evaluation Bool :=
  match r.condition with
  | some c => c.eval r.vars m
  | none => pure true

end Rule

end GraphTransform
