import GraphTransform.Text.Quoted

/-!
# Labels

The label of a node or an edge is a list of atoms with a mark. An atom is a constant, a variable, a
question about the match (the degree of a node, the length of a value), or an expression over
atoms. Two labels are equal if they are written alike: no expression is evaluated, and the mark
`any` equals only itself.
-/

namespace GraphTransform

/-- The mark of a label. -/
inductive Mark where
  | none
  | red
  | green
  | blue
  | grey
  | dashed
  /-- Matches every mark. -/
  | any
deriving DecidableEq, Inhabited

/-- The operations on two integers. -/
inductive ArithOp where
  | add
  | sub
  | mul
  | div
deriving DecidableEq

/-- The direction of the edges that a degree counts. -/
inductive Direction where
  | incoming
  | outgoing
deriving DecidableEq

/-- An atom, the element of label lists. -/
inductive Atom where
  /-- An integer constant of 64 bits. -/
  | int (value : Int64)
  /-- A string constant. -/
  | str (value : String)
  /-- A variable. -/
  | var (name : String)
  /-- The degree of the host node that a node is matched with. -/
  | degree (direction : Direction) (node : String)
  /-- The length of the value bound to a variable. -/
  | length (name : String)
  /-- The negated integer. -/
  | neg (operand : Atom)
  /-- An operation on two integers. -/
  | arith (op : ArithOp) (left right : Atom)
  /-- The concatenation of two strings. -/
  | concat (left right : Atom)
deriving DecidableEq

/-- The label of a node or an edge. -/
structure Label where
  /-- The mark. -/
  mark : Mark := .none
  /-- The list. -/
  list : List Atom := []
deriving DecidableEq

instance : Inhabited Label := ⟨{}⟩

/-! ### Text -/

/-- The name of a mark. -/
def Mark.text : Mark → String
  | .none => "none"
  | .red => "red"
  | .green => "green"
  | .blue => "blue"
  | .grey => "grey"
  | .dashed => "dashed"
  | .any => "any"

/-- The sign of an operation. -/
def ArithOp.text : ArithOp → String
  | .add => "+"
  | .sub => "-"
  | .mul => "*"
  | .div => "/"

/-- The word for a degree. -/
def Direction.text : Direction → String
  | .incoming => "indeg"
  | .outgoing => "outdeg"

/-- The written form of an atom; operations on integers stand in parentheses. -/
def Atom.text : Atom → String
  | .int n => toString n.toInt
  | .str s => Text.quote s
  | .var x => x
  | .degree d n => s!"{d.text}({n})"
  | .length x => s!"length({x})"
  | .neg a => s!"-{a.text}"
  | .arith op a b => s!"({a.text} {op.text} {b.text})"
  | .concat a b => s!"{a.text} . {b.text}"

/-- The written form of a list of atoms. -/
def Atom.listText : List Atom → String
  | [] => "empty"
  | atoms => ":".intercalate (atoms.map Atom.text)

/-- The written form of a label; only a mark other than `none` is shown. -/
def Label.text (l : Label) : String :=
  match l.mark with
  | .none => Atom.listText l.list
  | mark => s!"{Atom.listText l.list} # {mark.text}"

example : Label.text ⟨.red, [.var "x", .neg (.arith .add (.int (-1)) (.length "y"))]⟩ =
    "x:-(-1 + length(y)) # red" := by decide +kernel

example : Label.text {} = "empty" := rfl

end GraphTransform
