import GraphTransform.Label

/-!
# Graphs

The graph of one side of a rule. Nodes and edges are addressed by their position, called their
index; that is what the delta lists of a rule refer to.
-/

namespace GraphTransform

/-- A node of a graph. -/
structure Node where
  /-- Whether the node is a root. -/
  root : Bool := false
  /-- The label. -/
  label : Label := {}
deriving DecidableEq

/-- An edge of a graph. -/
structure Edge where
  /-- The index of the source node. -/
  source : Nat
  /-- The index of the target node. -/
  target : Nat
  /-- The label. -/
  label : Label := {}
deriving DecidableEq

/-- The graph of one side of a rule. -/
structure Graph where
  /-- The nodes by index. -/
  nodes : Array Node := #[]
  /-- The edges by index. -/
  edges : Array Edge := #[]
deriving DecidableEq

namespace Graph

/-- Add a node, which gets the index `g.nodes.size`. -/
def addNode (g : Graph) (n : Node) : Graph := { g with nodes := g.nodes.push n }

/-- Add an edge, which gets the index `g.edges.size`; its ends are to be nodes of the graph. -/
def addEdge (g : Graph) (e : Edge) : Graph := { g with edges := g.edges.push e }

/-- Whether some node is a root. -/
def hasRoot (g : Graph) : Bool := g.nodes.any (·.root)

/-- The label of a node, if there is such a node. -/
def nodeLabel? (g : Graph) (i : Nat) : Option Label := g.nodes[i]?.map (·.label)

/-- The label of an edge, if there is such an edge. -/
def edgeLabel? (g : Graph) (i : Nat) : Option Label := g.edges[i]?.map (·.label)

/-! ### Text -/

/-- The written form of the node with an index. -/
def nodeText (n : Node) (i : Nat) : String :=
  let root := if n.root then "(R)" else ""
  s!" (n{i}{root}, {n.label.text})"

/-- The written form of the edge with an index. -/
def edgeText (e : Edge) (i : Nat) : String :=
  s!" (e{i}, n{e.source}, n{e.target}, {e.label.text})"

/-- The written form of a graph: the nodes, a bar, the edges. -/
def text (g : Graph) : String :=
  let nodes := String.join (g.nodes.toList.zipIdx.map fun (n, i) => nodeText n i)
  let edges := String.join (g.edges.toList.zipIdx.map fun (e, i) => edgeText e i)
  s!"[{nodes} |{edges} ]"

example : text {} = "[ | ]" := by decide +kernel

example : text (({} : Graph).addNode ⟨true, {}⟩ |>.addEdge ⟨0, 0, ⟨.blue, [.int 3]⟩⟩) =
    "[ (n0(R), empty) | (e0, n0, n0, 3 # blue) ]" := by decide +kernel

end Graph

end GraphTransform
