import GraphTransform.Correspondence
import GraphTransform.Graph

/-!
# Delta lists

What applying a rule does to the items of its graphs, as lists of indices: which items are
preserved, deleted and added. Deleted edges are not listed. An edge of the left graph is deleted
if no preserved edge has it on the left.
-/

namespace GraphTransform

/-- An item of both graphs. -/
structure Preserved where
  /-- The index in the left graph. -/
  left : Nat
  /-- The index in the right graph. -/
  right : Nat
  /-- Whether the labels differ. -/
  relabelled : Bool
deriving DecidableEq

/-- An end of an added edge: a preserved node by its left index, an added one by its right index. -/
structure Anchor where
  /-- The graph that the index refers to. -/
  side : Side
  /-- The index of the node. -/
  index : Nat
deriving DecidableEq

/-- An edge of the right graph that is added. -/
structure AddedEdge where
  /-- The index in the right graph. -/
  index : Nat
  /-- The source node. -/
  source : Anchor
  /-- The target node. -/
  target : Anchor
deriving DecidableEq

/-- The delta lists of a rule. -/
structure Delta where
  /-- The nodes of both graphs. -/
  preservedNodes : List Preserved := []
  /-- The edges of both graphs. -/
  preservedEdges : List Preserved := []
  /-- The left indices of the nodes that only the left graph has. -/
  deletedNodes : List Nat := []
  /-- The right indices of the nodes that only the right graph has. -/
  addedNodes : List Nat := []
  /-- The edges that only the right graph has. -/
  addedEdges : List AddedEdge := []
deriving DecidableEq

/-- Whether the edge of the left graph with an index is deleted. -/
def Delta.deletesEdge (δ : Delta) (i : Nat) : Bool := !δ.preservedEdges.any (·.left = i)

/-! ### Text -/

/-- The letter of a side. -/
def Side.letter : Side → String
  | .left => "l"
  | .right => "r"

/-- The written form of a preserved item. -/
def Preserved.text (p : Preserved) : String :=
  let change := if p.relabelled then " (relabelled)" else ""
  s!"{p.left} => {p.right}{change}"

/-- The written form of an end of an added edge. -/
def Anchor.text (a : Anchor) : String := s!"{a.side.letter}{a.index}"

/-- The written form of an added edge. -/
def AddedEdge.text (e : AddedEdge) : String := s!"{e.index}: {e.source.text} -> {e.target.text}"

example : AddedEdge.text ⟨2, ⟨.left, 0⟩, ⟨.right, 13⟩⟩ = "2: l0 -> r13" := by decide +kernel

end GraphTransform
