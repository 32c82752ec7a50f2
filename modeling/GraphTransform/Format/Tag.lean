import GraphTransform.Decl

/-!
# Tags

The words that stand for the cases of a type where declarations are written as JSON. Every type has
the list of its cases, and a word is read by looking for the case that is written so.
-/

namespace GraphTransform

/-- The word for a mark. -/
def Mark.tag : Mark → String := Mark.text

/-- All marks. -/
def Mark.all : List Mark := [.none, .red, .green, .blue, .grey, .dashed, .any]

/-- The mark that a word stands for. -/
def Mark.ofTag? (tag : String) : Option Mark := Mark.all.find? (·.tag = tag)

/-- The word for a type. -/
def ValueType.tag : ValueType → String
  | .integer => "integer"
  | .character => "character"
  | .string => "string"
  | .atom => "atom"
  | .list => "list"

/-- All types. -/
def ValueType.all : List ValueType := [.integer, .character, .string, .atom, .list]

/-- The type that a word stands for. -/
def ValueType.ofTag? (tag : String) : Option ValueType := ValueType.all.find? (·.tag = tag)

/-- The word for a relation. -/
def RelOp.tag : RelOp → String
  | .greater => "greater"
  | .greaterEq => "greater_eq"
  | .less => "less"
  | .lessEq => "less_eq"

/-- All relations. -/
def RelOp.all : List RelOp := [.greater, .greaterEq, .less, .lessEq]

/-- The relation that a word stands for. -/
def RelOp.ofTag? (tag : String) : Option RelOp := RelOp.all.find? (·.tag = tag)

/-- The word for an operation. -/
def ArithOp.tag : ArithOp → String
  | .add => "add"
  | .sub => "sub"
  | .mul => "mul"
  | .div => "div"

/-- All operations. -/
def ArithOp.all : List ArithOp := [.add, .sub, .mul, .div]

/-- The operation that a word stands for. -/
def ArithOp.ofTag? (tag : String) : Option ArithOp := ArithOp.all.find? (·.tag = tag)

/-- The word for a degree. -/
def Direction.tag : Direction → String
  | .incoming => "indegree"
  | .outgoing => "outdegree"

/-- Both directions. -/
def Direction.all : List Direction := [.incoming, .outgoing]

/-- The direction that a word stands for. -/
def Direction.ofTag? (tag : String) : Option Direction := Direction.all.find? (·.tag = tag)

/-- The word for a test. -/
def ValueTest.tag : ValueTest → String
  | .integer => "is_int"
  | .character => "is_char"
  | .string => "is_string"
  | .atom => "is_atom"

/-- All tests. -/
def ValueTest.all : List ValueTest := [.integer, .character, .string, .atom]

/-- The test that a word stands for. -/
def ValueTest.ofTag? (tag : String) : Option ValueTest := ValueTest.all.find? (·.tag = tag)

@[simp] theorem Mark.ofTag?_tag (m : Mark) : Mark.ofTag? m.tag = some m := by
  cases m <;> decide

@[simp] theorem ValueType.ofTag?_tag (t : ValueType) : ValueType.ofTag? t.tag = some t := by
  cases t <;> decide

@[simp] theorem RelOp.ofTag?_tag (op : RelOp) : RelOp.ofTag? op.tag = some op := by
  cases op <;> decide

@[simp] theorem ArithOp.ofTag?_tag (op : ArithOp) : ArithOp.ofTag? op.tag = some op := by
  cases op <;> decide

@[simp] theorem Direction.ofTag?_tag (d : Direction) : Direction.ofTag? d.tag = some d := by
  cases d <;> decide

@[simp] theorem ValueTest.ofTag?_tag (t : ValueTest) : ValueTest.ofTag? t.tag = some t := by
  cases t <;> decide

end GraphTransform
