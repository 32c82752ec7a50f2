import GraphTransform.Decl

/-!
# Correspondence of items

While a rule is built, each node and each edge has a correspondence: the identifier of the item
with its index in the left and in the right graph, and for an edge the identifiers of its ends.
-/

namespace GraphTransform

/-- A side of a rule. -/
inductive Side where
  /-- The graph that is matched. -/
  | left
  /-- The graph that takes its place. -/
  | right
deriving DecidableEq

/-- What is known of an item while a rule is built. -/
structure Correspondence where
  /-- The identifier. -/
  id : String
  /-- The index in the left graph, if the item occurs there. -/
  left : Option Nat := none
  /-- The index in the right graph, if the item occurs there. -/
  right : Option Nat := none
  /-- The identifier of the source node of an edge. -/
  source : Option String := none
  /-- The identifier of the target node of an edge. -/
  target : Option String := none
deriving DecidableEq

namespace Correspondence

/-- The index on a side. -/
def index? (c : Correspondence) : Side → Option Nat
  | .left => c.left
  | .right => c.right

/-- The identifiers of both ends, if the item has both. -/
def ends? (c : Correspondence) : Option (String × String) :=
  match c.source, c.target with
  | some s, some t => some (s, t)
  | _, _ => none

/-- Whether the item is an edge from `s` to `t`. -/
def connects (c : Correspondence) (s t : String) : Bool :=
  c.source = some s ∧ c.target = some t

theorem connects_iff {c : Correspondence} {s t : String} :
    c.connects s t = true ↔ c.ends? = some (s, t) := by
  rcases c with ⟨_, _, _, _ | _, _ | _⟩ <;> simp [connects, ends?]

end Correspondence

/-- The correspondence of a node that occurs on a side with an index, and not on the other. -/
def NodeDecl.correspondence (n : NodeDecl) (side : Side) (index : Nat) : Correspondence where
  id := n.id
  left := if side = .left then some index else none
  right := if side = .right then some index else none

/-- The correspondence of an edge that occurs on a side with an index, and not on the other. -/
def EdgeDecl.correspondence (e : EdgeDecl) (side : Side) (index : Nat) : Correspondence where
  id := e.name
  left := if side = .left then some index else none
  right := if side = .right then some index else none
  source := some e.source
  target := some e.target

end GraphTransform
