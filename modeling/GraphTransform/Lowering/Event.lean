import GraphTransform.Rule

/-!
# Events of lowering

Lowering keeps a log. Each event is one record of it, with a level and a message.

What is kept of a run is not fixed here: lowering takes a `Recorder`, which chooses the records of
each event, and of each call that adds an edge to a graph. The log (`Recorder.log`) is one of them.
-/

namespace GraphTransform.Lowering

/-- How detailed a record of the log is. -/
inductive Level where
  /-- A step of lowering. -/
  | debug
  /-- The treatment of one item. -/
  | trace
deriving DecidableEq

/-- What happens while a declaration is lowered. -/
inductive Event where
  /-- The lowering of a rule begins. -/
  | started (rule : String)
  /-- All variables are declared. -/
  | declared (count : Nat)
  /-- The graph of a side is complete. -/
  | built (side : Side) (nodes edges : Nat)
  /-- A node of both sides is found. -/
  | preservedNode (id : String) (left right : Nat)
  /-- A node of the left side only is found. -/
  | deletedNode (id : String) (left : Nat)
  /-- A node of the right side only is found. -/
  | addedNode (id : String) (right : Nat)
  /-- An edge of the right side is paired with one of the left side. -/
  | preservedEdge (name : String) (left right : Nat)
  /-- An edge of the right side is added. -/
  | addedEdge (edge : AddedEdge)
  /-- The delta lists of the nodes are complete. -/
  | countedNodes (preserved deleted added : Nat)
  /-- The delta lists of the edges are complete. -/
  | countedEdges (preserved deleted added : Nat)
  /-- The condition is accepted. -/
  | accepted (condition : Condition)
  /-- The rule is complete. -/
  | finished (rule : String) (flags : Flags)
  /-- The declaration is refused. -/
  | failed (rule : String) (cause : DeclError)

/-- The name of a level. -/
def Level.text : Level → String
  | .debug => "DEBUG"
  | .trace => "TRACE"

/-- The word for the graph of a side. -/
def graphWord : Side → String
  | .left => "lhs"
  | .right => "rhs"

namespace Event

/-- The level of an event. -/
def level : Event → Level
  | .preservedNode .. => .trace
  | .deletedNode .. => .trace
  | .addedNode .. => .trace
  | .preservedEdge .. => .trace
  | .addedEdge .. => .trace
  | _ => .debug

/-- The message of an event. -/
def message : Event → String
  | .started rule => s!"lower rule {rule}"
  | .declared count => s!"declared {count} variables"
  | .built side nodes edges => s!"{graphWord side}: {nodes} nodes, {edges} edges"
  | .preservedNode id l r => s!"preserve node {id}: {l} => {r}"
  | .deletedNode id l => s!"delete node {id}: {l}"
  | .addedNode id r => s!"add node {id}: {r}"
  | .preservedEdge name l r => s!"preserve edge {name}: {l} => {r}"
  | .addedEdge e => s!"add edge {e.text}"
  | .countedNodes p d a => s!"delta: {p} nodes preserved, {d} deleted, {a} added"
  | .countedEdges p d a => s!"delta: {p} edges preserved, {d} deleted, {a} added"
  | .accepted c => s!"condition: {c.text}"
  | .finished rule f =>
    s!"flags of {rule}: Flags \x7b is_predicate: {f.isPredicate}, " ++
      s!"deletes_nodes: {f.deletesNodes}, is_rooted: {f.isRooted} \x7d"
  | .failed rule cause => s!"lowering {rule} failed: {cause.message}"

/-- The record of an event in the log. -/
def text (e : Event) : String := s!"{e.level.text} {e.message}"

end Event

/-- What is kept of a run of lowering. -/
structure Recorder (ω : Type) where
  /-- The records of an event. -/
  event : Event → List ω
  /-- The records of a call that adds an edge to a graph. -/
  edge : Graph → Edge → List ω

namespace Recorder

/-- The log: it keeps every event, and of the calls nothing. -/
def log : Recorder Event where
  event e := [e]
  edge _ _ := []

variable {ω α : Type} (R : Recorder ω)

/-- Record an event. -/
def note (e : Event) : Traced ω DeclError Unit := Traced.emitAll (R.event e)

/-- Record the events of a computation instead of leaving them. -/
def relay (x : Traced Event DeclError α) : Traced ω DeclError α :=
  ⟨x.trace.flatMap R.event, x.result⟩

/-- Add an edge to a graph, and record the call before it. -/
def addEdge (g : Graph) (e : Edge) : Traced ω DeclError Graph := do
  Traced.emitAll (R.edge g e)
  return g.addEdge e

@[simp] theorem log_event (e : Event) : log.event e = [e] := rfl

@[simp] theorem trace_note (e : Event) : (R.note e).trace = R.event e := rfl

@[simp] theorem result_note (e : Event) : (R.note e).result = .ok () := rfl

@[simp] theorem trace_relay (x : Traced Event DeclError α) :
    (R.relay x).trace = x.trace.flatMap R.event := rfl

@[simp] theorem result_relay (x : Traced Event DeclError α) : (R.relay x).result = x.result := rfl

@[simp] theorem trace_addEdge (g : Graph) (e : Edge) : (R.addEdge g e).trace = R.edge g e :=
  List.append_nil _

@[simp] theorem result_addEdge (g : Graph) (e : Edge) :
    (R.addEdge g e).result = .ok (g.addEdge e) :=
  rfl

/-- The log keeps the events as they are. -/
@[simp] theorem relay_log (x : Traced Event DeclError α) : log.relay x = x :=
  Traced.ext (List.flatMap_singleton' _) rfl

end Recorder

end GraphTransform.Lowering
