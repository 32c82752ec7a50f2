import GraphTransform.Condition
import GraphTransform.Variable

/-!
# Typing

The static check of atoms, labels and conditions against the declared variables. Questions about
degrees and edges are only put for nodes of the left side, because only these are matched. A check
fails with the first error in the order of the parts.
-/

namespace GraphTransform

/-- The names that atoms and conditions may mention. -/
structure Scope where
  /-- The declared variables. -/
  vars : Variables
  /-- Whether an identifier is that of a node of the left side. -/
  isLeftNode : String → Bool

/-- The type that a test asks for. -/
def ValueTest.type : ValueTest → ValueType
  | .integer => .integer
  | .character => .character
  | .string => .string
  | .atom => .atom

namespace Scope

variable (Γ : Scope)

/-- The type of a declared variable. -/
def typeOf (x : String) : Except DeclError ValueType :=
  match Γ.vars.type? x with
  | some t => .ok t
  | none => .error (.undeclaredVariable x)

/-- Fail unless the node is one of the left side. -/
def requireLeftNode (n : String) : Except DeclError Unit :=
  if Γ.isLeftNode n then .ok () else .error (.unknownItem n)

/-- Fail unless the atom `a` of type `t` is an integer. -/
def requireInteger (a : Atom) (t : ValueType) : Except DeclError Unit :=
  if t = .integer then .ok () else .error (.typeMismatch a.text .integer t)

/-- Fail unless the atom `a` of type `t` is a string. -/
def requireString (a : Atom) (t : ValueType) : Except DeclError Unit :=
  if ValueType.string.holds t then .ok () else .error (.typeMismatch a.text .string t)

/-- Fail unless the variable `x` of type `t` has a length. -/
def requireLength (x : String) : ValueType → Except DeclError Unit
  | .list => .ok ()
  | .string => .ok ()
  | .character => .ok ()
  | t => .error (.typeMismatch x .list t)

/-- The most precise type of an atom. -/
def infer : Atom → Except DeclError ValueType
  | .int _ => .ok .integer
  | .str s => .ok (if s.length = 1 then .character else .string)
  | .var x => Γ.typeOf x
  | .degree _ n => do
    Γ.requireLeftNode n
    return .integer
  | .length x => do
    let t ← Γ.typeOf x
    requireLength x t
    return .integer
  | .neg a => do
    let t ← infer a
    requireInteger a t
    return .integer
  | .arith _ a b => do
    let t ← infer a
    requireInteger a t
    let u ← infer b
    requireInteger b u
    return .integer
  | .concat a b => do
    let t ← infer a
    requireString a t
    let u ← infer b
    requireString b u
    return .string

/-- Fail unless an operand is an integer. -/
def checkInteger (a : Atom) : Except DeclError Unit := do
  let t ← Γ.infer a
  requireInteger a t

/-- Fail unless all atoms of a label have a type. -/
def checkLabel (l : Label) : Except DeclError Unit :=
  l.list.forM fun a => do
    let _ ← Γ.infer a

/-- Fail if an element of a compared list is a variable declared as an integer. -/
def checkElement : Atom → Except DeclError Unit
  | .var x => do
    let t ← Γ.typeOf x
    if t = .integer then .error (.typeMismatch x .list .integer) else .ok ()
  | _ => .ok ()

/-- Fail unless the atoms `as` of types `ts` may equal atoms of types `us`, position by position. -/
def checkOverlaps : (as : List Atom) → (ts us : List ValueType) → Except DeclError Unit
  | a :: as, t :: ts, u :: us =>
    if t.overlaps u then checkOverlaps as ts us else .error (.typeMismatch a.text u t)
  | _, _, _ => .ok ()

/-- Fail unless two lists may be equal. Where neither has an element of type `list` and both are
equally long, their elements have to overlap at every position. -/
def checkComparable (l r : List Atom) : Except DeclError Unit := do
  (l ++ r).forM Γ.checkElement
  let ts ← l.mapM Γ.infer
  let us ← r.mapM Γ.infer
  if .list ∈ ts ∨ .list ∈ us ∨ ts.length ≠ us.length then
    return ()
  else
    checkOverlaps l ts us

/-- Fail unless the variable may stand for a value of the given type. -/
def checkHolds (x : String) (t : ValueType) : Except DeclError Unit := do
  let declared ← Γ.typeOf x
  if declared.holds t then .ok () else .error (.typeMismatch x t declared)

/-- Fail unless all labels have only atoms with a type. -/
def checkLabels (labels : List Label) : Except DeclError Unit := labels.forM Γ.checkLabel

/-- Check a condition. -/
def checkCondition : Condition → Except DeclError Unit
  | .is test x => Γ.checkHolds x test.type
  | .edge s t l => do
    Γ.requireLeftNode s
    Γ.requireLeftNode t
    match l with
    | some l => Γ.checkLabel l
    | none => .ok ()
  | .eq l r => Γ.checkComparable l r
  | .neq l r => Γ.checkComparable l r
  | .cmp _ l r => do
    Γ.checkInteger l
    Γ.checkInteger r
  | .not c => checkCondition c
  | .and c d => do
    checkCondition c
    checkCondition d
  | .or c d => do
    checkCondition c
    checkCondition d

end Scope

end GraphTransform
