import Std.Data.TreeMap
import GraphTransform.DeclError

/-!
# Variables

The variables of a rule, in the order of their declaration, each name at most once. An index from
names to positions answers lookups; it is no part of what a table means, so tables are equal if
their declarations are.
-/

namespace GraphTransform

/-- The declaration of a variable. -/
structure Variable where
  /-- The name. -/
  name : String
  /-- The type of the values that it stands for. -/
  type : ValueType
deriving DecidableEq

/-- The written form of a declaration. -/
def Variable.text (v : Variable) : String := s!"{v.name} : {v.type.text}"

/-- The variables of a rule. -/
structure Variables where
  /-- The declarations, in order. -/
  decls : Array Variable := #[]
  /-- The position of every declared name. -/
  index : Std.TreeMap String Nat := ∅

namespace Variables

/-- The table without variables. -/
def empty : Variables := {}

instance : Inhabited Variables := ⟨empty⟩

instance : BEq Variables := ⟨fun u v => u.decls == v.decls⟩

/-- Declare a variable, unless its name is taken. -/
def declare (vs : Variables) (v : Variable) : Except DeclError Variables :=
  if vs.index.contains v.name then
    .error (.duplicateVariable v.name)
  else
    .ok ⟨vs.decls.push v, vs.index.insert v.name vs.decls.size⟩

/-- Declare some variables in turn. -/
def declareAll (vs : Variables) (decls : List Variable) : Except DeclError Variables :=
  decls.foldlM declare vs

/-- The type of a declared variable. -/
def type? (vs : Variables) (name : String) : Option ValueType :=
  vs.index[name]?.bind fun i => vs.decls[i]?.map (·.type)

/-- The number of variables. -/
def count (vs : Variables) : Nat := vs.decls.size

/-- The declarations, in order. -/
def toList (vs : Variables) : List Variable := vs.decls.toList

/-- Tables are equal exactly if their declarations are. -/
theorem beq_iff {u v : Variables} : (u == v) = true ↔ u.toList = v.toList := by
  change (u.decls == v.decls) = true ↔ _
  rw [beq_iff_eq, toList, toList, Array.toList_inj]

end Variables

end GraphTransform
