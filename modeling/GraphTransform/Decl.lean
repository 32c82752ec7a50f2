import GraphTransform.Condition
import GraphTransform.Variable

/-!
# Declarations

A rule as it is declared: two graphs whose items are known by identifiers, variables and a
condition. Nodes with a common identifier on both sides are the same node; an edge may go without
an identifier and is then known by its ends.
-/

namespace GraphTransform

/-- The declaration of a node. -/
structure NodeDecl where
  /-- The identifier. -/
  id : String
  /-- Whether the node is a root. -/
  root : Bool := false
  /-- The label. -/
  label : Label := {}
deriving DecidableEq

/-- The declaration of an edge. -/
structure EdgeDecl where
  /-- The identifier, if the edge has one. -/
  id : Option String := none
  /-- The identifier of the source node. -/
  source : String
  /-- The identifier of the target node. -/
  target : String
  /-- The label. -/
  label : Label := {}
deriving DecidableEq

/-- The declaration of one side of a rule. -/
structure GraphDecl where
  /-- The nodes, in order. -/
  nodes : List NodeDecl := []
  /-- The edges, in order. -/
  edges : List EdgeDecl := []
deriving DecidableEq

/-- The declaration of a rule. -/
structure RuleDecl where
  /-- The name. -/
  name : String
  /-- The variables, in order. -/
  vars : List Variable := []
  /-- The graph that is matched. -/
  lhs : GraphDecl
  /-- The graph that takes its place. -/
  rhs : GraphDecl
  /-- The condition, if there is one. -/
  condition : Option Condition := none
deriving DecidableEq

/-- The name of an edge: its identifier, or one made up from its ends. -/
def EdgeDecl.name (e : EdgeDecl) : String :=
  match e.id with
  | some id => id
  | none => s!"{e.source}->{e.target}"

/-- The identifiers of the nodes of a side. -/
def GraphDecl.nodeIds (g : GraphDecl) : List String := g.nodes.map (·.id)

/-- The identifiers that edges of a side carry. -/
def GraphDecl.edgeIds (g : GraphDecl) : List String := g.edges.filterMap (·.id)

/-- Fail with the first identifier that occurred before; `seen` are those that came earlier. -/
def distinctIds (seen : List String) : List String → Except DeclError Unit
  | [] => .ok ()
  | id :: rest =>
    if id ∈ seen then .error (.duplicateItem id) else distinctIds (id :: seen) rest

/-- Fail if two nodes, or two edges with an identifier, share it. -/
def GraphDecl.checkIds (g : GraphDecl) : Except DeclError Unit := do
  distinctIds [] g.nodeIds
  distinctIds [] g.edgeIds

/-- Nothing is found exactly if the identifiers are distinct and none came earlier. -/
theorem distinctIds_eq_ok_iff {seen ids : List String} :
    distinctIds seen ids = .ok () ↔ ids.Nodup ∧ ∀ id ∈ ids, id ∉ seen := by
  induction ids generalizing seen with
  | nil => simp [distinctIds]
  | cons id rest ih =>
    by_cases h : id ∈ seen
    · simp [distinctIds, h]
    · simp only [distinctIds, h, if_false, ih, List.nodup_cons, List.mem_cons]
      grind

end GraphTransform
