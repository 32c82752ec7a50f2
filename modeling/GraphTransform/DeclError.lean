import GraphTransform.Text.Quoted
import GraphTransform.ValueType

/-!
# Errors of declarations

The reasons why a declaration does not describe a rule, with their messages. An error also has a
technical form, which names its kind and quotes its parts; the command ends with it.
-/

namespace GraphTransform

/-- A reason why a declaration does not describe a rule. -/
inductive DeclError where
  /-- Two variables share a name. -/
  | duplicateVariable (name : String)
  /-- An atom or a condition mentions a variable that is not declared. -/
  | undeclaredVariable (name : String)
  /-- An item has another type than its place requires. -/
  | typeMismatch (item : String) (expected found : ValueType)
  /-- Two nodes or two edges of one side share an identifier. -/
  | duplicateItem (id : String)
  /-- An identifier stands for no node where it has to. -/
  | unknownItem (id : String)
  /-- An edge of the right side ends in a node that only the left side has. -/
  | danglingEdge (edge node : String)
deriving DecidableEq

/-- The message of an error. -/
def DeclError.message : DeclError → String
  | .duplicateVariable x => s!"variable {x} declared twice"
  | .undeclaredVariable x => s!"variable {x} not declared"
  | .typeMismatch item expected found =>
    s!"{item} has type {found.text}, expected {expected.text}"
  | .duplicateItem id => s!"item {id} declared twice in one side"
  | .unknownItem id => s!"no index map for item {id}"
  | .danglingEdge edge node => s!"edge {edge} is incident to node {node} outside the RHS"

/-- The technical form of an error. -/
def DeclError.debugText : DeclError → String
  | .duplicateVariable x => s!"DuplicateVariable({Text.quote x})"
  | .undeclaredVariable x => s!"UndeclaredVariable({Text.quote x})"
  | .typeMismatch item expected found =>
    s!"TypeMismatch \x7b item: {Text.quote item}, expected: {expected.debugText}, " ++
      s!"found: {found.debugText} \x7d"
  | .duplicateItem id => s!"DuplicateItem({Text.quote id})"
  | .unknownItem id => s!"MissingIndexMap({Text.quote id})"
  | .danglingEdge edge node =>
    s!"DanglingEdgeEndpoint \x7b edge: {Text.quote edge}, node: {Text.quote node} \x7d"

/-- An error together with the name of the rule that has it. -/
structure RuleError where
  /-- The name of the rule. -/
  rule : String
  /-- What is wrong with its declaration. -/
  cause : DeclError
deriving DecidableEq

/-- The message of an error with the name of its rule. -/
def RuleError.message (e : RuleError) : String := s!"rule {e.rule}: {e.cause.message}"

/-- The technical form of an error with the name of its rule. -/
def RuleError.debugText (e : RuleError) : String :=
  s!"Error \x7b rule: {Text.quote e.rule}, kind: {e.cause.debugText} \x7d"

example : RuleError.debugText ⟨"a", .typeMismatch "x" .integer .list⟩ =
    "Error \x7b rule: \"a\", kind: TypeMismatch \x7b item: \"x\", expected: Integer, " ++
      "found: List \x7d \x7d" := by
  decide +kernel

end GraphTransform
