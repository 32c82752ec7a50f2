import GraphTransform.Integer
import GraphTransform.Traced
import GraphTransform.Variable
import GraphTransform.Condition
import GraphTransform.Match

/-!
# Evaluation

The value of an atom and the truth of a condition under a candidate match, together with the
queries put to the match. Operands are evaluated from left to right, each once and before any check
of the operation itself; `and` and `or` skip their second operand when the first decides. Integers
are exact and have to fit into 64 bits.
-/

namespace GraphTransform

/-- A computation that puts queries to a match. -/
abbrev Evaluation := Traced Query EvalError

/-- An exact integer in 64 bits. -/
def checked (n : Int) : Except EvalError Int64 :=
  match toInt64? n with
  | some i => .ok i
  | none => .error .overflow

/-- The result of an operation; quotients are rounded towards zero. -/
def ArithOp.apply (op : ArithOp) (i j : Int64) : Except EvalError Int64 :=
  match op with
  | .add => checked (i.toInt + j.toInt)
  | .sub => checked (i.toInt - j.toInt)
  | .mul => checked (i.toInt * j.toInt)
  | .div => if j = 0 then .error .divisionByZero else checked (i.toInt.tdiv j.toInt)

/-- Whether two integers are in a relation. -/
def RelOp.holds (op : RelOp) (i j : Int64) : Bool :=
  match op with
  | .greater => j < i
  | .greaterEq => j ≤ i
  | .less => i < j
  | .lessEq => i ≤ j

/-- Whether a value passes a test. -/
def ValueTest.passes : ValueTest → Value → Bool
  | .integer, .int _ => true
  | .character, .str s => s.length = 1
  | .string, .str _ => true
  | .atom, _ => true
  | _, _ => false

namespace Match

variable (m : Match)

/-- Ask for the values bound to a variable. -/
def askBinding (x : String) : Evaluation (List Value) :=
  ⟨[.binding x], match m.binding x with
    | some values => .ok values
    | none => .error (.unbound x)⟩

/-- Ask for a degree of a node. -/
def askDegree (d : Direction) (n : String) : Evaluation Int64 :=
  ⟨[.degree d n], match m.degree d n with
    | some k => checked k
    | none => .error (.unbound n)⟩

/-- Ask for an edge. -/
def askEdge (s t : String) (l : Option Label) : Evaluation Bool :=
  ⟨[.hasEdge s t l], .ok (m.hasEdge s t l)⟩

end Match

namespace Atom

/-- The value that stands for the variable `x` among atoms. -/
def single (x : String) : List Value → Except EvalError Value
  | [v] => .ok v
  | _ => .error (.notAtom x)

/-- The length of the values bound to the variable `x`: the number of characters if it is declared
as a string or a character, and else the number of values. -/
def measure (type : Option ValueType) (x : String) (values : List Value) :
    Except EvalError Int64 :=
  if type = some .string ∨ type = some .character then
    match values with
    | [.str s] => checked s.length
    | _ => .error (.notString x)
  else
    checked values.length

/-- The value of the operand `a` as an integer. -/
def asInteger (a : Atom) : Value → Except EvalError Int64
  | .int i => .ok i
  | .str _ => .error (.notInteger a.text)

/-- The value of the operand `a` as a string. -/
def asString (a : Atom) : Value → Except EvalError String
  | .str s => .ok s
  | .int _ => .error (.notString a.text)

/-- The value of an atom. -/
def eval (vs : Variables) (m : Match) : Atom → Evaluation Value
  | .int i => pure (.int i)
  | .str s => pure (.str s)
  | .var x => do
    let values ← m.askBinding x
    single x values
  | .degree d n => do
    let k ← m.askDegree d n
    return .int k
  | .length x => do
    let values ← m.askBinding x
    let k ← measure (vs.type? x) x values
    return .int k
  | .neg a => do
    let v ← a.eval vs m
    let i ← asInteger a v
    let k ← checked (-i.toInt)
    return .int k
  | .arith op a b => do
    let v ← a.eval vs m
    let i ← asInteger a v
    let w ← b.eval vs m
    let j ← asInteger b w
    let k ← op.apply i j
    return .int k
  | .concat a b => do
    let v ← a.eval vs m
    let s ← asString a v
    let w ← b.eval vs m
    let t ← asString b w
    return .str (s ++ t)

/-- The integer that an operand stands for. -/
def evalInteger (vs : Variables) (m : Match) (a : Atom) : Evaluation Int64 := do
  let v ← a.eval vs m
  asInteger a v

/-- The values that an element of a list stands for: all values of a variable, one of any other
atom. -/
def evalElement (vs : Variables) (m : Match) : Atom → Evaluation (List Value)
  | .var x => m.askBinding x
  | a => do
    let v ← a.eval vs m
    return [v]

/-- The values that a list of atoms stands for. -/
def evalList (vs : Variables) (m : Match) : List Atom → Evaluation (List Value)
  | [] => pure []
  | a :: rest => do
    let values ← a.evalElement vs m
    let others ← evalList vs m rest
    return values ++ others

end Atom

namespace Condition

/-- Whether a single value is bound and passes the test. -/
def passesAlone (test : ValueTest) : List Value → Bool
  | [v] => test.passes v
  | _ => false

/-- Whether a condition holds. -/
def eval (vs : Variables) (m : Match) : Condition → Evaluation Bool
  | .is test x => do
    let values ← m.askBinding x
    return passesAlone test values
  | .edge s t l => m.askEdge s t l
  | .eq l r => do
    let ls ← Atom.evalList vs m l
    let rs ← Atom.evalList vs m r
    return ls = rs
  | .neq l r => do
    let ls ← Atom.evalList vs m l
    let rs ← Atom.evalList vs m r
    return ls ≠ rs
  | .cmp op l r => do
    let i ← l.evalInteger vs m
    let j ← r.evalInteger vs m
    return op.holds i j
  | .not c => do
    let b ← c.eval vs m
    return !b
  | .and c d => do
    let b ← c.eval vs m
    if b then d.eval vs m else return false
  | .or c d => do
    let b ← c.eval vs m
    if b then return true else d.eval vs m

end Condition

end GraphTransform
