/-!
# Types of values

A variable stands for an integer, a character, a string, an atom (an integer or a string) or a
list of atoms. Types are ordered by the values that they hold: a character is a string of one
character, each of them is an atom, and an atom is a list of one atom.
-/

namespace GraphTransform

/-- The type of a variable. -/
inductive ValueType where
  | integer
  | character
  | string
  | atom
  | list
deriving DecidableEq

namespace ValueType

/-- Whether every value of the type `u` is a value of the type `t`. -/
def holds : (t u : ValueType) → Bool
  | .list, _ => true
  | .atom, .list => false
  | .atom, _ => true
  | .string, .string => true
  | .string, .character => true
  | t, u => t = u

/-- Whether some value has both types. -/
def overlaps (t u : ValueType) : Bool := t.holds u || u.holds t

/-- The written form of a type. -/
def text : ValueType → String
  | .integer => "int"
  | .character => "char"
  | .string => "string"
  | .atom => "atom"
  | .list => "list"

/-- The technical form of a type. -/
def debugText : ValueType → String
  | .integer => "Integer"
  | .character => "Character"
  | .string => "String"
  | .atom => "Atom"
  | .list => "List"

theorem overlaps_comm (t u : ValueType) : t.overlaps u = u.overlaps t := Bool.or_comm ..

end ValueType

end GraphTransform
