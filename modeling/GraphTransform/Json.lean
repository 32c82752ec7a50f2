/-!
# JSON values

A JSON value as it stands in a text: the members of an object keep their order, and a name may
come twice. Of numbers only integers are kept; a string is kept unless its escapes name half of a
surrogate pair, so that it is no Unicode text. This is all that decoding needs to know of a value
that it looks at, and what it ignores may be anything that the grammar allows.
-/

namespace GraphTransform

/-- A JSON value without parts. -/
inductive Scalar where
  | null
  | bool (value : Bool)
  /-- A number, if it is written as an integer; a negative zero is not. -/
  | number (value : Option Int)
  /-- A string, if it is Unicode text. -/
  | string (text : Option String)
deriving DecidableEq

/-- A JSON value. -/
inductive Json where
  /-- A value without parts. -/
  | scalar (value : Scalar)
  /-- A list of values. -/
  | array (items : List Json)
  /-- A list of members with their names. -/
  | object (members : List (Option String × Json))

namespace Json

/-- The null value. -/
def null : Json := .scalar .null

/-- A truth value. -/
def bool (b : Bool) : Json := .scalar (.bool b)

/-- An integer. -/
def int (n : Int) : Json := .scalar (.number (some n))

/-- A string. -/
def str (s : String) : Json := .scalar (.string (some s))

/-- An object with named members. -/
def record (members : List (String × Json)) : Json :=
  .object (members.map fun (name, j) => (some name, j))

end Json

end GraphTransform
