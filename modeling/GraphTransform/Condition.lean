import GraphTransform.Label

/-!
# Conditions

A condition guards the application of a rule. Its leaves ask what a variable is bound to, whether
the host graph has an edge, or compare lists or integers; `not`, `and` and `or` combine them.
-/

namespace GraphTransform

/-- An order relation between integers. -/
inductive RelOp where
  | greater
  | greaterEq
  | less
  | lessEq
deriving DecidableEq

/-- What a single value may be asked to be. -/
inductive ValueTest where
  | integer
  | character
  | string
  | atom
deriving DecidableEq

/-- A condition. -/
inductive Condition where
  /-- The variable is bound to a single value that passes the test. -/
  | is (test : ValueTest) (name : String)
  /-- The host graph has an edge between the nodes matched by two nodes, with a label if given. -/
  | edge (source target : String) (label : Option Label)
  /-- The lists are equal. -/
  | eq (left right : List Atom)
  /-- The lists differ. -/
  | neq (left right : List Atom)
  /-- The integers are in the relation. -/
  | cmp (op : RelOp) (left right : Atom)
  /-- The condition does not hold. -/
  | not (c : Condition)
  /-- Both conditions hold. -/
  | and (c d : Condition)
  /-- At least one of the conditions holds. -/
  | or (c d : Condition)
deriving DecidableEq

/-- The sign of a relation. -/
def RelOp.text : RelOp → String
  | .greater => ">"
  | .greaterEq => ">="
  | .less => "<"
  | .lessEq => "<="

/-- The word for a test. -/
def ValueTest.text : ValueTest → String
  | .integer => "int"
  | .character => "char"
  | .string => "string"
  | .atom => "atom"

namespace Condition

/-- The number of conditions in the tree of a condition. -/
def size : Condition → Nat
  | .not c => 1 + c.size
  | .and c d => 1 + c.size + d.size
  | .or c d => 1 + c.size + d.size
  | _ => 1

/-- The written form of a condition; conjunctions and disjunctions stand in parentheses. -/
def text : Condition → String
  | .is test x => s!"{test.text}({x})"
  | .edge s t none => s!"edge({s}, {t})"
  | .edge s t (some l) => s!"edge({s}, {t}, {l.text})"
  | .eq l r => s!"{Atom.listText l} = {Atom.listText r}"
  | .neq l r => s!"{Atom.listText l} != {Atom.listText r}"
  | .cmp op l r => s!"{l.text} {op.text} {r.text}"
  | .not c => s!"not {c.text}"
  | .and c d => s!"({c.text} and {d.text})"
  | .or c d => s!"({c.text} or {d.text})"

example : text (.not (.and (.is .integer "x") (.neq [] [.var "x", .int 1]))) =
    "not (int(x) and empty != x:1)" := by decide +kernel

end Condition

end GraphTransform
