import GraphTransform.Label

/-!
# Candidate matches

A candidate match sends the nodes of the left side of a rule to nodes of a host graph and its
variables to lists of values. The matching engine answers questions about it; a question is a
query.
-/

namespace GraphTransform

/-- A value of the host graph. -/
inductive Value where
  /-- An integer of 64 bits. -/
  | int (value : Int64)
  /-- A string. -/
  | str (value : String)
deriving DecidableEq

/-- The answers of the matching engine; nodes are given by their identifiers in the rule. -/
structure Match where
  /-- The values bound to a variable. -/
  binding : String → Option (List Value)
  /-- The degree of the host node that a node is matched with. -/
  degree : Direction → String → Option Nat
  /-- Whether there is an edge between the host nodes of two nodes, with a label if given. -/
  hasEdge : String → String → Option Label → Bool

/-- A question about a candidate match. -/
inductive Query where
  /-- What is the variable bound to? -/
  | binding (name : String)
  /-- How many edges leave or enter the host node? -/
  | degree (direction : Direction) (node : String)
  /-- Is there an edge between the host nodes? -/
  | hasEdge (source target : String) (label : Option Label)
deriving DecidableEq

/-- The written form of a query. -/
def Query.text : Query → String
  | .binding x => s!"binding({x})"
  | .degree .incoming n => s!"indegree({n})"
  | .degree .outgoing n => s!"outdegree({n})"
  | .hasEdge s t none => s!"has_edge({s}, {t})"
  | .hasEdge s t (some l) => s!"has_edge({s}, {t}, {l.text})"

/-- A reason why an atom or a condition has no value under a match. -/
inductive EvalError where
  /-- A variable or a node has no place in the match. -/
  | unbound (name : String)
  /-- A variable stands for an atom and is not bound to exactly one value. -/
  | notAtom (name : String)
  /-- An operand is no integer. -/
  | notInteger (item : String)
  /-- An operand is no string. -/
  | notString (item : String)
  /-- The divisor is zero. -/
  | divisionByZero
  /-- The exact result does not fit into 64 bits. -/
  | overflow
deriving DecidableEq

/-- The message of an error. -/
def EvalError.message : EvalError → String
  | .unbound x => s!"{x} is not bound"
  | .notAtom x => s!"{x} is not bound to an atom"
  | .notInteger item => s!"{item} does not evaluate to an integer"
  | .notString item => s!"{item} does not evaluate to a string"
  | .divisionByZero => "division by zero"
  | .overflow => "arithmetic overflow"

end GraphTransform
